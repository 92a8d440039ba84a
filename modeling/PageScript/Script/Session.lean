import PageScript.Page.Basic
import PageScript.Page.Memory
import PageScript.Script.Act
import PageScript.Script.Step

/-!
# Sessions

A session is the state of a script: its store, the registers that name handles, the prompt in
use and the page. A step that names a register nobody has written, or treats a console like a
memory page, is a misuse and ends the run; a fault does not.
-/

namespace PageScript.Script

/-- A step that makes no sense in its session. -/
inductive Misuse where
  | noList (register : String)
  | noCell (register : String)
  | notInMemory
deriving DecidableEq, Repr

def Misuse.message : Misuse → String
  | .noList register => "no list register " ++ register
  | .noCell register => "no cell register " ++ register
  | .notInMemory => "the page is not in memory"

/-- The state of a script. -/
structure Session where
  store : Store := { prompts := #[{}] }
  lists : List (String × ListId) := []
  cells : List (String × CellId) := []
  prompt : PromptId := ⟨0⟩
  kind : PageKind := .memory
  memory : MemoryPage Action := {}
  console : Console Action := {}

/-- A change of a session that a misuse may end. -/
abbrev Run (α : Type) := EStateM Misuse Session α

namespace Run

variable {α : Type}

/-- Runs an effect on a part of the session. A fault is a result. -/
def perform {τ : Type} (part : Session → τ) (put : τ → Session → Session) (effect : Effect τ α) :
    Run (Except Fault α) := fun s =>
  match effect (part s) with
  | .ok a t => .ok (.ok a) (put t s)
  | .error fault t => .ok (.error fault) (put t s)

/-- Runs a page operation on the page of the session. -/
def onPage (operation : {π : Type → Type} → [Page π] → Effect (π Action) α) :
    Run (Except Fault α) := do
  match (← get).kind with
  | .memory => perform Session.memory (fun memory s => { s with memory }) operation
  | .console => perform Session.console (fun console s => { s with console }) operation

/-- Changes the store and gives a result. -/
def withStore (f : Store → α × Store) : Run α :=
  modifyGet fun s => let (a, store) := f s.store; (a, { s with store })

def modifyStore (f : Store → Store) : Run Unit := withStore fun store => ((), f store)

def store : Run Store := return (← get).store

def heap : Run Heap := return (← store).heap

def currentPrompt : Run PromptId := return (← get).prompt

def listIn (register : String) : Run ListId := do
  match (← get).lists.lookup register with
  | some l => return l
  | none => throw (.noList register)

def cellIn (register : String) : Run CellId := do
  match (← get).cells.lookup register with
  | some c => return c
  | none => throw (.noCell register)

def setList (register : String) (l : ListId) : Run Unit :=
  modify fun s => { s with lists := (register, l) :: s.lists }

def setCell (register : String) (c : CellId) : Run Unit :=
  modify fun s => { s with cells := (register, c) :: s.cells }

def listTree (l : ListId) : Run Tree := return (← heap).unfold (.list l)

def cellTree? (c : CellId) : Run (Option Tree) := do
  let store ← store
  return (store.cells.get? c).map store.heap.unfold

def memoryPage : Run (MemoryPage Action) := do
  let s ← get
  match s.kind with
  | .memory => return s.memory
  | .console => throw .notInMemory

end Run

end PageScript.Script
