import PageScript.Prompt.Basic

/-!
# Terminal prompts

A prompt shows its message and reads a line with a line editor. Which editor that is does not
matter to the prompt. A line that was cancelled, or that no terminal could give, is the empty text.

`PlainEditor` is an editor for lines of bytes that keeps nothing from one line to the next. It trims
its lines.
-/

namespace PageScript

/-- Why a line editor gives no line. -/
inductive EditError where
  | endOfInput
  | interrupted
  | failed (reason : String)
deriving DecidableEq, Repr

/--
A line editor with states `σ`. It reads a line from the bytes that are typed meanwhile, which are
`none` if the input is no terminal.
-/
class LineEditor (σ : Type) where
  new : σ
  readLine : Option (List UInt8) → StateM σ (Except EditError String)

/--
An editor, the lines to be typed, `none` where there is no terminal, and the text shown so far.
-/
structure Terminal (σ : Type) where
  editor : σ
  lines : List (Option (List UInt8)) := []
  shown : String := ""
deriving DecidableEq, Repr

namespace Terminal

/-- The answer to a message, by what the editor gave. -/
def answer : Except EditError String → String
  | .ok line => line
  -- The line was cancelled.
  | .error .endOfInput | .error .interrupted => ""
  | .error (.failed _) => ""

variable {σ : Type} [LineEditor σ]

/-- A terminal with a new editor. -/
def new (lines : List (Option (List UInt8))) : Terminal σ := { editor := LineEditor.new, lines }

/-- Shows a message and a space, and reads the next line. -/
def ask (message : String) : StateM (Terminal σ) String := fun t =>
  let (line, editor) := LineEditor.readLine t.lines.head?.join t.editor
  (answer line, { editor, lines := t.lines.tail, shown := t.shown ++ message ++ " " })

instance : Prompt (Terminal σ) := ⟨ask⟩

/-- A use of a terminal prompt. -/
inductive Query where
  | ask (message : String)
  | number (message : String)
deriving DecidableEq, Repr

inductive Reply where
  | answer (text : String)
  | number (x : Binary64)

/-- Serves a query, and gives the text shown for it besides the reply. -/
def serve (query : Query) : StateM (Terminal σ) (Reply × String) := do
  modify fun t => { t with shown := "" }
  let reply ←
    match query with
    | .ask message => do pure (Reply.answer (← ask message))
    | .number message => do pure (Reply.number (← Prompt.askNumber message))
  return (reply, (← get).shown)

end Terminal

/-- What a key does to the line being edited. -/
inductive Key where
  | insert (c : Char)
  | erase
  | enter
  | cancel (e : EditError)
deriving DecidableEq, Repr

/--
The key of a byte. Printable characters insert themselves, line ends enter, Ctrl-C interrupts,
Ctrl-D ends the input, backspace and delete erase. Any other byte inserts a null character.
-/
def Key.ofByte (byte : UInt8) : Key :=
  let n := byte.toNat
  if 32 ≤ n ∧ n ≤ 126 then .insert (Char.ofNat n)
  else if n = 10 ∨ n = 13 then .enter
  else if n = 3 then .cancel .interrupted
  else if n = 4 then .cancel .endOfInput
  else if n = 8 ∨ n = 127 then .erase
  else .insert (Char.ofNat 0)

/-- The line that keys leave, from a line begun. -/
def editLine (line : List Char) : List Key → Except EditError (List Char)
  | [] => .error .endOfInput
  | .insert c :: keys => editLine (line ++ [c]) keys
  | .erase :: keys => editLine line.dropLast keys
  | .enter :: _ => .ok line
  | .cancel e :: _ => .error e

structure PlainEditor where
deriving DecidableEq, Repr

instance : LineEditor PlainEditor where
  new := {}
  readLine
    | none => pure (.error (.failed "not a terminal"))
    | some bytes => pure do
      let line ← editLine [] (bytes.map Key.ofByte)
      return String.ofList (trim line)

end PageScript
