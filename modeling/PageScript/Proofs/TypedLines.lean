import PageScript.Prompt.Terminal
import PageScript.Proofs.Numerals
import PageScript.Proofs.PromptHistory

/-!
# Typed lines

Numbers are read from lines that are typed and edited on a terminal, or from answers that were
queued. The terminal has a line editor of which little is known: keys that erase take away the last
character, Enter gives the line without blanks at the ends, cancelling gives an error, and a line
starts empty. A queued answer is taken as it is.

Main statement: with any such editor, lines typed with any editing leave the same numbers in the
cells as the edited lines do when they are queued untrimmed, for any reads in any order, and each
read has the line of its turn.
-/

namespace PageScript

/-- A number to be read into a cell, with a message of its own or with the fixed one. -/
structure NumberRead where
  cell : CellId
  message : Option String

/-- Reads numbers through one prompt, in order. -/
def Prompt.readAll {π : Type} [Prompt π] (reads : List NumberRead) (s : π × Cells) : π × Cells :=
  reads.foldl (fun s r => (Prompt.readInto r.cell (r.message.getD Prompt.numberMessage) s).2) s

/-- Backspace and delete. -/
def erases (byte : UInt8) : Bool := byte == 8 || byte == 127

def isPrintable (byte : UInt8) : Bool := 32 ≤ byte && byte ≤ 126

/-- Enter in either form. -/
def enterKeys : List UInt8 := [10, 13]

/-- Ctrl-C and Ctrl-D. -/
def cancelKeys : List UInt8 := [3, 4]

/-- The bytes of a line: printable characters and keys that erase, and the key that ends it. -/
structure TypedLine where
  body : List UInt8
  last : UInt8
  edits : ∀ byte ∈ body, isPrintable byte || erases byte
  ends : last ∈ enterKeys ++ cancelKeys

namespace TypedLine

def bytes (l : TypedLine) : List UInt8 := l.body ++ [l.last]

/-- What is left of a line after one more byte. -/
def edit (line : List UInt8) (byte : UInt8) : List UInt8 :=
  if erases byte then line.dropLast else line ++ [byte]

/-- The characters of bytes. -/
def text (bytes : List UInt8) : List Char := bytes.map fun byte => Char.ofNat byte.toNat

/-- The answer to queue for a line: all that editing leaves of it, blanks included. -/
def answer (l : TypedLine) : String :=
  if l.last ∈ enterKeys then String.ofList (text (l.body.foldl edit [])) else ""

theorem isPrintable_of_mem_edit {line : List UInt8} {byte : UInt8}
    (hline : ∀ b ∈ line, isPrintable b) (hbyte : isPrintable byte || erases byte) :
    ∀ b ∈ edit line byte, isPrintable b := by
  intro b hb
  rw [edit] at hb
  split at hb
  · exact hline b (List.dropLast_subset line hb)
  · next hkeeps =>
    rw [Bool.or_eq_true, or_iff_left hkeeps] at hbyte
    rcases List.mem_append.mp hb with hold | hnew
    · exact hline b hold
    · rwa [List.mem_singleton.mp hnew]

theorem edit_of_isPrintable {byte : UInt8} (h : isPrintable byte) (line : List UInt8) :
    edit line byte = line ++ [byte] := by
  refine if_neg fun herases => ?_
  rw [erases, Bool.or_eq_true, beq_iff_eq, beq_iff_eq] at herases
  rcases herases with rfl | rfl <;> exact absurd h (by decide)

end TypedLine

namespace LineEditor

/-- What a new editor gives for the bytes of a line. -/
def firstLine (σ : Type) [LineEditor σ] (bytes : List UInt8) : Except EditError String :=
  (readLine (some bytes) (new : σ)).1

/-- What is known of an editor. Of keys that do nothing of this, nothing is said. -/
structure EditsLines (σ : Type) [LineEditor σ] : Prop where
  /-- Backspace and delete take away the last character. -/
  erase_last {before : List UInt8} {c e : UInt8} (hbefore : ∀ b ∈ before, isPrintable b)
    (hc : isPrintable c) (he : erases e) (rest : TypedLine) :
    firstLine σ (before ++ c :: e :: rest.bytes) = firstLine σ (before ++ rest.bytes)
  /-- They do nothing to an empty line. -/
  erase_nothing {e : UInt8} (he : erases e) (rest : TypedLine) :
    firstLine σ (e :: rest.bytes) = firstLine σ rest.bytes
  enter {body : List UInt8} {key : UInt8} (hbody : ∀ b ∈ body, isPrintable b)
    (hkey : key ∈ enterKeys) :
    firstLine σ (body ++ [key]) = .ok (String.ofList (trim (TypedLine.text body)))
  cancel {body : List UInt8} {key : UInt8} (hbody : ∀ b ∈ body, isPrintable b)
    (hkey : key ∈ cancelKeys) : ∃ e, firstLine σ (body ++ [key]) = .error e
  /-- Each line starts empty, whatever was read before. -/
  starts_empty (s : σ) (l : TypedLine) : (readLine (some l.bytes) s).1 = firstLine σ l.bytes

/-- Input that is not typed is reported as an error. -/
def ReportsMissing (σ : Type) [LineEditor σ] : Prop :=
  ∀ s : σ, ∃ e, (readLine none s).1 = .error e

namespace EditsLines

variable {σ : Type} [LineEditor σ] (hσ : EditsLines σ)
include hσ

/-- Keys that erase can be left out, with what they erase. -/
theorem firstLine_edited {line body : List UInt8} {last : UInt8}
    (hline : ∀ b ∈ line, isPrintable b) (hbody : ∀ b ∈ body, isPrintable b || erases b)
    (hends : last ∈ enterKeys ++ cancelKeys) :
    firstLine σ (line ++ (body ++ [last])) =
        firstLine σ (body.foldl TypedLine.edit line ++ [last]) ∧
      ∀ b ∈ body.foldl TypedLine.edit line, isPrintable b := by
  induction body generalizing line with
  | nil => exact ⟨rfl, hline⟩
  | cons byte body ih =>
    obtain ⟨hbyte, hrest⟩ := List.forall_mem_cons.mp hbody
    have hedit := ih (TypedLine.isPrintable_of_mem_edit hline hbyte) hrest
    have hstep : firstLine σ (line ++ (byte :: body ++ [last])) =
        firstLine σ (TypedLine.edit line byte ++ (body ++ [last])) := by
      let rest : TypedLine := ⟨body, last, hrest, hends⟩
      by_cases herases : erases byte
      · rw [TypedLine.edit, if_pos herases]
        rcases List.eq_nil_or_concat line with rfl | ⟨before, c, rfl⟩
        · exact hσ.erase_nothing herases rest
        · rw [List.concat_eq_append] at hline ⊢
          rw [List.dropLast_concat, List.append_assoc]
          have hbefore := fun b hb => hline b (List.mem_append_left [c] hb)
          exact hσ.erase_last hbefore (hline c (by simp)) herases rest
      · rw [TypedLine.edit, if_neg herases, List.append_assoc]
        rfl
    rw [List.foldl_cons, hstep]
    exact hedit

/-- Trimming a line does not change the number read from it. -/
theorem parseInteger_answer (l : TypedLine) (s : σ) :
    parseInteger (Terminal.answer (readLine (some l.bytes) s).1) = parseInteger l.answer := by
  obtain ⟨hedited, hprintable⟩ := hσ.firstLine_edited (List.forall_mem_nil _) l.edits l.ends
  rw [hσ.starts_empty s l, TypedLine.answer]
  rw [List.nil_append] at hedited
  rw [TypedLine.bytes, hedited]
  by_cases hentered : l.last ∈ enterKeys
  · rw [if_pos hentered, hσ.enter hprintable hentered]
    exact parseInteger_trim _
  · have hcancelled := (List.mem_append.mp l.ends).resolve_left hentered
    obtain ⟨e, he⟩ := hσ.cancel hprintable hcancelled
    rw [if_neg hentered, he]
    cases e <;> rfl

end EditsLines

end LineEditor

namespace PlainEditor

open TypedLine (edit text edit_of_isPrintable)

theorem editLine_key {byte : UInt8} (h : isPrintable byte || erases byte) (line : List UInt8)
    (keys : List Key) :
    editLine (text line) (Key.ofByte byte :: keys) = editLine (text (edit line byte)) keys := by
  by_cases herases : erases byte = true
  · have hkey : Key.ofByte byte = .erase := by
      rw [erases, Bool.or_eq_true, beq_iff_eq, beq_iff_eq] at herases
      rcases herases with rfl | rfl <;> rfl
    rw [hkey, editLine, edit, if_pos herases, text, text, List.map_dropLast]
  · have hprintable : 32 ≤ byte.toNat ∧ byte.toNat ≤ 126 := by
      simpa [herases, isPrintable, UInt8.le_iff_toNat_le] using h
    have hkey : Key.ofByte byte = .insert (Char.ofNat byte.toNat) := if_pos hprintable
    rw [hkey, editLine, edit, if_neg herases, text, text, List.map_append, List.map_singleton]

theorem editLine_body {body : List UInt8} (h : ∀ byte ∈ body, isPrintable byte || erases byte)
    (line : List UInt8) (keys : List Key) :
    editLine (text line) (body.map Key.ofByte ++ keys) =
      editLine (text (body.foldl edit line)) keys := by
  induction body generalizing line with
  | nil => rfl
  | cons byte body ih =>
    obtain ⟨hbyte, hrest⟩ := List.forall_mem_cons.mp h
    rw [List.map_cons, List.cons_append, editLine_key hbyte, List.foldl_cons]
    exact ih hrest _

theorem firstLine_eq (bytes : List UInt8) :
    LineEditor.firstLine PlainEditor bytes =
      (editLine (text []) (bytes.map Key.ofByte)).map fun line => String.ofList (trim line) := by
  have hline : LineEditor.firstLine PlainEditor bytes =
      editLine (text []) (bytes.map Key.ofByte) >>= fun line =>
        pure (String.ofList (trim line)) := rfl
  rw [hline]
  cases editLine (text []) (bytes.map Key.ofByte) <;> rfl

/-- Printable characters are all kept. -/
theorem editLine_printable {body : List UInt8} (hbody : ∀ b ∈ body, isPrintable b)
    (keys : List Key) :
    editLine (text []) (body.map Key.ofByte ++ keys) = editLine (text body) keys := by
  have hkept (line : List UInt8) : body.foldl edit line = line ++ body := by
    induction body generalizing line with
    | nil => rw [List.foldl_nil, List.append_nil]
    | cons b body ih =>
      obtain ⟨hb, hrest⟩ := List.forall_mem_cons.mp hbody
      rw [List.foldl_cons, edit_of_isPrintable hb, ih hrest, List.append_assoc]
      rfl
  rw [editLine_body (fun b hb => by rw [hbody b hb, Bool.true_or]), hkept, List.nil_append]

theorem editsLines : LineEditor.EditsLines PlainEditor where
  erase_last {before c e} hbefore hc he rest := by
    have hundone : edit (edit before c) e = before := by
      rw [edit_of_isPrintable hc, edit, if_pos he, List.dropLast_concat]
    rw [firstLine_eq, firstLine_eq, List.map_append, List.map_append, List.map_cons, List.map_cons,
      editLine_printable hbefore, editLine_printable hbefore, editLine_key (by simp [hc]),
      editLine_key (by simp [he]), hundone]
  erase_nothing {e} he rest := by
    have hnothing : edit [] e = [] := by rw [edit, if_pos he, List.dropLast_nil]
    rw [firstLine_eq, firstLine_eq, List.map_cons, editLine_key (by simp [he]), hnothing]
  enter hbody hkey := by
    rw [firstLine_eq, List.map_append, editLine_printable hbody]
    simp only [enterKeys, List.mem_cons, List.not_mem_nil, or_false] at hkey
    rcases hkey with rfl | rfl <;> rfl
  cancel hbody hkey := by
    rw [firstLine_eq, List.map_append, editLine_printable hbody]
    simp only [cancelKeys, List.mem_cons, List.not_mem_nil, or_false] at hkey
    rcases hkey with rfl | rfl <;> exact ⟨_, rfl⟩
  starts_empty _ _ := rfl

theorem reportsMissing : LineEditor.ReportsMissing PlainEditor := fun _ => ⟨_, rfl⟩

end PlainEditor

/-- The lines are still to be typed on the terminal, and their answers are queued. -/
structure Awaits {σ : Type} (typed : List TypedLine) (t : Terminal σ) (p : Scripted) : Prop where
  lines : t.lines = typed.map fun l => some l.bytes
  answers : p.answers = typed.map TypedLine.answer

namespace Awaits

open LineEditor (EditsLines ReportsMissing)

variable {σ : Type} [LineEditor σ] {typed : List TypedLine} {t : Terminal σ} {p : Scripted}

/-- One number is the same from both. If no line is left to type, the editor must say so. -/
theorem ask (hσ : EditsLines σ) (h : Awaits typed t p) (hline : typed ≠ [] ∨ ReportsMissing σ)
    (message : String) :
    parseInteger (Terminal.ask message t).1 = parseInteger (Scripted.ask message p).1 ∧
      Awaits typed.tail (Terminal.ask message t).2 (Scripted.ask message p).2 := by
  obtain ⟨hlines, hanswers⟩ := h
  refine ⟨?_, ⟨?_, ?_⟩⟩
  · rw [Terminal.ask, Scripted.ask, hlines, hanswers]
    cases typed with
    | nil =>
      obtain ⟨e, he⟩ := hline.resolve_left (fun hne => hne rfl) t.editor
      have hempty : Terminal.answer (LineEditor.readLine none t.editor).1 = "" := by
        rw [he]
        cases e <;> rfl
      exact congrArg parseInteger hempty
    | cons l typed => exact hσ.parseInteger_answer l t.editor
  · rw [List.map_tail, ← hlines]
    rfl
  · rw [List.map_tail, ← hanswers]
    rfl

theorem readInto (hσ : EditsLines σ) (h : Awaits typed t p)
    (hline : typed ≠ [] ∨ ReportsMissing σ) (cells : Cells) (cell : CellId) (message : String) :
    ∃ t' p' cells', (Prompt.readInto cell message (t, cells)).2 = (t', cells') ∧
      (Prompt.readInto cell message (p, cells)).2 = (p', cells') ∧ Awaits typed.tail t' p' := by
  obtain ⟨hnumber, hrest⟩ := h.ask hσ hline message
  refine ⟨_, _, cells.set cell (.number (parseInteger (Terminal.ask message t).1)), rfl, ?_, hrest⟩
  rw [hnumber]
  rfl

theorem readAll (hσ : EditsLines σ) (h : Awaits typed t p) (reads : List NumberRead)
    (hlines : reads.length ≤ typed.length ∨ ReportsMissing σ) (cells : Cells) :
    (Prompt.readAll reads (t, cells)).2 = (Prompt.readAll reads (p, cells)).2 := by
  induction reads generalizing typed t p cells with
  | nil => rfl
  | cons r reads ih =>
    have hline : typed ≠ [] ∨ ReportsMissing σ := by
      refine hlines.imp_left fun hle hnil => ?_
      rw [hnil] at hle
      exact absurd hle (Nat.not_succ_le_zero _)
    obtain ⟨t', p', cells', ht, hp, hrest⟩ :=
      h.readInto hσ hline cells r.cell (r.message.getD Prompt.numberMessage)
    rw [Prompt.readAll, Prompt.readAll, List.foldl_cons, List.foldl_cons, ht, hp]
    apply ih hrest
    refine hlines.imp_left fun hle => ?_
    rw [List.length_tail]
    exact Nat.le_sub_one_of_lt hle

end Awaits

namespace Scripted

theorem readAll_eq_after (reads : List NumberRead) (answers : List String) (cells : Cells) :
    Prompt.readAll reads (({ answers } : Scripted), cells) =
      after answers cells (reads.map fun r => .read r.cell r.message) := by
  rw [after, List.foldl_map]
  rfl

/-- Each read takes one answer, whatever it reads from it. -/
theorem answers_readAll (reads : List NumberRead) (p : Scripted) (cells : Cells) :
    (Prompt.readAll reads (p, cells)).1.answers = p.answers.drop reads.length := by
  induction reads generalizing p cells with
  | nil => rfl
  | cons r reads ih =>
    rw [Prompt.readAll, List.foldl_cons, List.length_cons, ← List.drop_tail]
    exact ih _ _

/-- A read stores the number at the start of the answer of its turn. -/
theorem get?_readAll_concat (reads : List NumberRead) (answers : List String) {cells : Cells}
    {r : NumberRead} (hcell : r.cell.index < cells.count) :
    (Prompt.readAll (reads ++ [r]) (({ answers } : Scripted), cells)).2.get? r.cell =
      some (.number (parseInteger (answers.getD reads.length ""))) := by
  have hcount : r.cell.index <
      (Prompt.readAll reads (({ answers } : Scripted), cells)).2.count := by
    rwa [readAll_eq_after, count_after]
  have hread := get?_readInto (Prompt.readAll reads (({ answers } : Scripted), cells)).1 _
    (r.message.getD Prompt.numberMessage) hcount
  rw [answers_readAll, List.headD_eq_head?_getD, List.head?_drop, ← List.getD_eq_getElem?_getD]
    at hread
  rw [Prompt.readAll, List.foldl_append]
  exact hread

end Scripted

/--
Any numbers read through a terminal, from lines typed and edited in any way, end up in the cells
just as they do when the edited lines are queued untrimmed, and empty answers for lines that were
cancelled. There may be more reads than lines if the editor reports that nothing is typed. Each
read stores the number that its own line starts with.
-/
theorem typed_lines_read_as_queued {σ : Type} [LineEditor σ] (hσ : LineEditor.EditsLines σ)
    (reads : List NumberRead) (typed : List TypedLine)
    (hlines : reads.length ≤ typed.length ∨ LineEditor.ReportsMissing σ) (cells : Cells) :
    let terminal : Terminal σ := .new (typed.map fun l => some l.bytes)
    let scripted : Scripted := { answers := typed.map TypedLine.answer }
    (Prompt.readAll reads (terminal, cells)).2 = (Prompt.readAll reads (scripted, cells)).2 ∧
    ∀ before r after, reads = before ++ r :: after → r.cell.index < cells.count →
      (Prompt.readAll (before ++ [r]) (terminal, cells)).2.get? r.cell =
        some (.number (parseInteger ((typed.map TypedLine.answer).getD before.length ""))) := by
  intro terminal scripted
  have hawaits : Awaits typed terminal scripted := ⟨rfl, rfl⟩
  refine ⟨hawaits.readAll hσ reads hlines cells, ?_⟩
  intro before r after hreads hcell
  have hfirst : (before ++ [r]).length ≤ typed.length ∨ LineEditor.ReportsMissing σ := by
    refine hlines.imp_left fun hle => ?_
    rw [hreads] at hle
    simp only [List.length_append, List.length_cons, List.length_nil] at hle ⊢
    omega
  rw [hawaits.readAll hσ (before ++ [r]) hfirst cells]
  exact Scripted.get?_readAll_concat before _ hcell

/-- A cancelled line, then a line with a blank at each end and a digit that is typed again. -/
theorem typed_lines_read_as_queued_retyped :
    ∃ cancelled entered : TypedLine, (cancelled.body, cancelled.last) = ([49], 3) ∧
      (entered.body, entered.last) = ([32, 52, 53, 8, 50, 32], 13) ∧
      LineEditor.EditsLines PlainEditor ∧ LineEditor.ReportsMissing PlainEditor ∧
      let terminal : Terminal PlainEditor := .new [some cancelled.bytes, some entered.bytes]
      (Prompt.readAll [⟨⟨0⟩, none⟩, ⟨⟨0⟩, some "n"⟩] (terminal, ⟨#[none]⟩)).2.get? ⟨0⟩ =
        some (.number (parseInteger " 42 ")) ∧
      (Prompt.readAll [⟨⟨0⟩, none⟩, ⟨⟨0⟩, some "n"⟩, ⟨⟨0⟩, none⟩]
        (terminal, ⟨#[none]⟩)).2.get? ⟨0⟩ = some (.number (parseInteger "")) := by
  let cancelled : TypedLine := ⟨[49], 3, List.all_eq_true.mp rfl, by simp [enterKeys, cancelKeys]⟩
  let entered : TypedLine :=
    ⟨[32, 52, 53, 8, 50, 32], 13, List.all_eq_true.mp rfl, by simp [enterKeys]⟩
  refine ⟨cancelled, entered, rfl, rfl, PlainEditor.editsLines, PlainEditor.reportsMissing, ?_⟩
  obtain ⟨-, hread⟩ := typed_lines_read_as_queued PlainEditor.editsLines
    [⟨⟨0⟩, none⟩, ⟨⟨0⟩, some "n"⟩, ⟨⟨0⟩, none⟩] [cancelled, entered]
    (.inr PlainEditor.reportsMissing) ⟨#[none]⟩
  refine ⟨hread [⟨⟨0⟩, none⟩] ⟨⟨0⟩, some "n"⟩ [⟨⟨0⟩, none⟩] rfl Nat.one_pos, ?_⟩
  exact hread [⟨⟨0⟩, none⟩, ⟨⟨0⟩, some "n"⟩] ⟨⟨0⟩, none⟩ [] rfl Nat.one_pos

end PageScript
