import PageScript.Cells
import PageScript.Number.Numeral

/-!
# Prompts

A prompt shows a message and gives an answer. A number is read by asking and taking the
integer at the start of the answer, or no number, into a cell. A scripted prompt has its answers
queued beforehand and gives the oldest first; an empty queue answers the empty text. It keeps all
messages.
-/

namespace PageScript

/-- Something that answers messages. -/
class Prompt (π : Type) where
  ask : String → StateM π String

namespace Prompt

/-- The message when a number is read without one. -/
def numberMessage : String := "Syötä luku"

variable {π : Type} [Prompt π]

def askNumber (message : String) : StateM π Binary64 := do
  return parseInteger (← ask message)

def readInto (cell : CellId) (message : String) : StateM (π × Cells) Unit := fun (p, cells) =>
  let (x, p) := askNumber message p
  ((), p, cells.set cell (.number x))

end Prompt

/-- A queue of answers and the messages asked so far, oldest first. -/
structure Scripted where
  answers : List String := []
  asked : List String := []
deriving DecidableEq, Repr

namespace Scripted

def push (p : Scripted) (answer : String) : Scripted := { p with answers := p.answers ++ [answer] }

/-- Records a message and takes the oldest answer. -/
def ask (message : String) : StateM Scripted String := fun p =>
  (p.answers.headD "", { answers := p.answers.tail, asked := p.asked ++ [message] })

def remaining (p : Scripted) : Nat := p.answers.length

instance : Prompt Scripted := ⟨ask⟩

def inspectTexts (texts : List String) : String := "[" ++ ", ".intercalate (texts.map quote) ++ "]"

def inspect (p : Scripted) : String :=
  "ScriptedPrompt \x7b answers: " ++ inspectTexts p.answers ++ ", asked: " ++
    inspectTexts p.asked ++ " \x7d"

end Scripted

end PageScript
