import PageScript.Heap.Tree
import PageScript.Number.Elementary

/-!
# Steps of a script

A script works on named list registers and cell registers, one prompt, one page and an output
device. This module has its steps, the expressions in them and the answers that they give.
-/

namespace PageScript.Script

/-- A value in a step. -/
inductive Expr where
  | null
  | number (x : Binary64)
  | text (s : String)
  | boolean (b : Bool)
  | element (id : ElementId)
  /-- A new list. -/
  | items (es : List Expr)
  /-- The list in a register, shared. -/
  | list (register : String)
  /-- What the cell in a register holds, null if it is unset. -/
  | cell (register : String)

/-- An act in a step, which names registers. -/
inductive ActForm where
  | append (list : String) (item : Expr)
  | appendCell (list cell : String)
  | setAt (list : String) (index : Nat) (item : Expr)
  | clear (list : String)
  | set (cell : String) (value : Expr)
  | unset (cell : String)
  | add (cell : String) (amount : Binary64)
  | power (list cell : String) (base : Binary64)
  | read (cell : String) (message : Option String)
  | requireNumber (cell : String)
  | fail (fault : Fault)
  | failFrom (execution : Nat) (fault : Fault)

inductive ListStep where
  | make (target : String)
  | ofItems (target : String) (items : List Expr)
  | divisors (target : String) (n : Int)
  | primeFactors (target : String) (n : Int)
  | share (target source : String)
  | tail (list target : String)
  | size (list : String)
  | isEmpty (list : String)
  | append (list : String) (item : Expr)
  | setAt (list : String) (index : Nat) (item : Expr)
  | clear (list : String)
  | head (list : String)
  | last (list : String)
  | elements (list : String)
  | indexOf (list : String) (item : Expr)
  | position (list : String) (item : Expr)
  | same (a b : String)
  | equal (a b : String)
  | inspect (list : String)

inductive NumberFunction where
  | elementary (f : Elementary)
  | factorial
  | text

inductive ValueStep where
  | display (value : Expr)
  | inspect (value : Expr)
  | kind (value : Expr)
  | isNull (value : Expr)
  | asNumber (value : Expr)
  | equal (a b : Expr)
  /-- Stores the function of a number in a cell. -/
  | apply (f : NumberFunction) (value : Expr) (cell : String)

inductive CellStep where
  | make (target : String)
  | ofValue (target : String) (value : Expr)
  | ofFields (target : String) (fields : List (String × Expr))
  | share (target source : String)
  | get (cell : String)
  | isSet (cell : String)
  | set (cell : String) (value : Expr)
  | unset (cell : String)
  | take (cell : String)
  | same (a b : String)
  | inspect (cell : String)
  | read (cell : String) (message : Option String)

inductive PromptStep where
  | make (answers : List String)
  | push (answer : String)
  | ask (message : String)
  | asked
  | remaining
  | inspect

inductive PageKind where
  | memory
  | console
deriving DecidableEq, Repr

inductive PageStep where
  | make (kind : PageKind)
  | addElement (id : ElementId)
  | written
  | content (id : ElementId)
  | click (id : ElementId)
  | writeText (text : String)
  | showValue (value : Expr)
  | findElement (id : ElementId)
  | findElementInto (id : ElementId) (cell : String)
  | appendContent (id : ElementId) (text : String)
  | clearContent (id : ElementId)
  | bindClick (id : ElementId) (action : List ActForm)
  /-- Takes the text on the output device. -/
  | output
  /-- Makes the output device full, or not, and drops the text on it. -/
  | setFull (full : Bool)

inductive Step where
  | list (step : ListStep)
  | value (step : ValueStep)
  | cell (step : CellStep)
  | prompt (step : PromptStep)
  | page (step : PageStep)
  | repeatAction (n : Int) (action : List ActForm)

inductive Answer where
  | outcome (result : Except Fault Unit)
  | tree (t : Tree)
  | optionalTree (t : Option Tree)
  | treeOrFault (result : Except Fault Tree)
  | numberOrFault (result : Except Fault Binary64)
  | count (n : Int)
  | optionalCount (n : Option Nat)
  | flag (b : Bool)
  | text (s : String)
  | optionalText (s : Option String)
  | texts (ss : List String)
  | tail (t : Tree) (same : Bool)
  | elements (ts : List Tree) (sizeAfter : Nat)
  | taken (t : Option Tree) (isSet : Bool)
  | repeated (started : Nat) (result : Except Fault Unit)

end PageScript.Script
