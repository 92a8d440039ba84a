import PageScript.Binary.Basic
import PageScript.Fault

/-!
# Values

A list value is a handle: two values that hold the same handle share the list.
-/

namespace PageScript

/-- The handle of a shared list. -/
structure ListId where
  index : Nat
deriving DecidableEq, Repr

/-- The identifier of an element of a page. -/
structure ElementId where
  name : String
deriving DecidableEq, Repr

/-- A value of a script. -/
inductive Value where
  | number (x : Binary64)
  | text (s : String)
  | boolean (b : Bool)
  | list (l : ListId)
  | element (id : ElementId)
  | null
deriving DecidableEq

namespace Value

def kind : Value → String
  | .number _ => "number"
  | .text _ => "text"
  | .boolean _ => "boolean"
  | .list _ => "list"
  | .element _ => "element"
  | .null => "null"

def isNull : Value → Bool
  | .null => true
  | _ => false

def asNumber : Value → Except Fault Binary64
  | .number x => .ok x
  | v => .error (.wrongType ("expected number, got " ++ v.kind))

end Value

end PageScript
