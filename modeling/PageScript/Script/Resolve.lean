import PageScript.Script.Session

/-!
# Expressions and actions in a session

Expressions and act forms name registers. Their values and acts hold what the registers hold
at the time, so that later writes to a register change neither.
-/

namespace PageScript.Script

open Run

mutual

/-- The value of an expression. Inner lists are made before outer ones. -/
def Expr.eval : Expr → Run Value
  | .null => return .null
  | .number x => return .number x
  | .text s => return .text s
  | .boolean b => return .boolean b
  | .element id => return .element id
  | .items es => do
    let vs ← Expr.evalAll es
    return .list (← withStore (·.makeList vs))
  | .list register => return .list (← listIn register)
  | .cell register => do
    let c ← cellIn register
    return (← store).cells.value c

def Expr.evalAll : List Expr → Run (List Value)
  | [] => return []
  | e :: es => do
    let v ← e.eval
    return v :: (← Expr.evalAll es)

end

/-- The act of a form, with the registers and the prompt as they are now. -/
def ActForm.resolve : ActForm → Run Act
  | .append list item => return .append (← listIn list) (← item.eval)
  | .appendCell list cell => return .appendCell (← listIn list) (← cellIn cell)
  | .setAt list index item => return .setAt (← listIn list) index (← item.eval)
  | .clear list => return .clear (← listIn list)
  | .set cell value => return .set (← cellIn cell) (← value.eval)
  | .unset cell => return .unset (← cellIn cell)
  | .add cell amount => return .add (← cellIn cell) amount
  | .power list cell base => return .power (← listIn list) (← cellIn cell) base
  | .read cell message => do
    return .read (← currentPrompt) (← cellIn cell) (message.getD Prompt.numberMessage)
  | .requireNumber cell => return .requireNumber (← cellIn cell)
  | .fail fault => return .fail fault
  | .failFrom execution fault => return .failFrom (← withStore Store.makeCounter) execution fault

def resolveAction (forms : List ActForm) : Run Action := forms.mapM ActForm.resolve

end PageScript.Script
