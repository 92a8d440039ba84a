import PageScript.Fault
import PageScript.Integer
import PageScript.Number.Elementary
import PageScript.Script.Resolve

/-!
# Running a script

What each step does to the session and what it answers.
-/

namespace PageScript.Script

open Run

/-- The type of the integers whose divisors are listed. -/
def listedType : IntType := .signed 64

def makeListIn (target : String) (items : List Value) : Run Answer := do
  let l ← withStore (·.makeList items)
  setList target l
  return .tree (← listTree l)

def makeCellIn (target : String) (value : Option Value) : Run Answer := do
  let c ← withStore (·.makeCell value)
  setCell target c
  return .optionalTree (← cellTree? c)

def integerValues (ns : Option (List Int)) : List Value :=
  (ns.getD []).map fun n => .number (.ofInt n)

def ListStep.run : ListStep → Run Answer
  | .make target => do
    let _ ← makeListIn target []
    return .outcome (.ok ())
  | .ofItems target items => do makeListIn target (← Expr.evalAll items)
  | .divisors target n => makeListIn target (integerValues (listedType.divisors n))
  | .primeFactors target n => makeListIn target (integerValues (listedType.primeFactors n))
  | .share target source => do
    let l ← listIn source
    setList target l
    return .tree (← listTree l)
  | .tail list target => do
    let l ← listIn list
    let rest ← withStore fun store =>
      let (rest, heap) := store.heap.tail l
      (rest, { store with heap })
    setList target rest
    return .tail (← listTree rest) (rest == l)
  | .size list => return .count ((← heap).size (← listIn list))
  | .isEmpty list => return .flag ((← heap).size (← listIn list) == 0)
  | .append list item => do
    let l ← listIn list
    let v ← item.eval
    modifyStore fun store => { store with heap := store.heap.append l v }
    return .tree (← listTree l)
  | .setAt list index item => do
    let l ← listIn list
    let v ← item.eval
    match (← heap).setAt l index v with
    | .ok heap =>
      modifyStore fun store => { store with heap }
      return .treeOrFault (.ok (← listTree l))
    | .error fault => return .treeOrFault (.error fault)
  | .clear list => do
    let l ← listIn list
    modifyStore fun store => { store with heap := store.heap.clear l }
    return .tree (← listTree l)
  | .head list => do
    let h ← heap
    return .optionalTree ((h.head? (← listIn list)).map h.unfold)
  | .last list => do
    let h ← heap
    return .optionalTree ((h.last? (← listIn list)).map h.unfold)
  | .elements list => do
    let h ← heap
    let l ← listIn list
    return .elements ((h.elements l).map h.unfold) (h.size l)
  | .indexOf list item => do
    let l ← listIn list
    let v ← item.eval
    return .count ((← heap).indexOf l v)
  | .position list item => do
    let l ← listIn list
    let v ← item.eval
    return .optionalCount ((← heap).position? l v)
  | .same a b => return .flag ((← listIn a) == (← listIn b))
  | .equal a b => do
    let l ← listIn a
    let k ← listIn b
    return .flag ((← heap).equal (.list l) (.list k))
  | .inspect list => return .text ((← heap).inspectList (← listIn list))

def NumberFunction.apply : NumberFunction → Binary64 → Value
  | .elementary f, x => .number (f.apply x)
  | .factorial, x => .number (PageScript.factorial x)
  | .text, x => .text x.text

def ValueStep.run : ValueStep → Run Answer
  | .display value => do
    let v ← value.eval
    return .text ((← heap).display v)
  | .inspect value => do
    let v ← value.eval
    return .text ((← heap).inspect v)
  | .kind value => return .text (← value.eval).kind
  | .isNull value => return .flag (← value.eval).isNull
  | .asNumber value => return .numberOrFault (← value.eval).asNumber
  | .equal a b => do
    let v ← a.eval
    let w ← b.eval
    return .flag ((← heap).equal v w)
  | .apply f value cell => do
    let v ← value.eval
    let c ← cellIn cell
    match v.asNumber with
    | .ok x =>
      let result := f.apply x
      modifyStore fun store => { store with cells := store.cells.set c result }
      return .treeOrFault (.ok ((← heap).unfold result))
    | .error fault => return .treeOrFault (.error fault)

def CellStep.run : CellStep → Run Answer
  | .make target => do
    let _ ← makeCellIn target none
    return .outcome (.ok ())
  | .ofValue target value => do makeCellIn target (some (← value.eval))
  | .ofFields target fields => do
    let values ← Expr.evalAll (fields.map Prod.snd)
    let c ← withStore fun store =>
      let (c, cells) := store.cells.ofFields ((fields.map Prod.fst).zip values)
      (c, { store with cells })
    setCell target c
    return .optionalTree (← cellTree? c)
  | .share target source => do
    let c ← cellIn source
    setCell target c
    return .optionalTree (← cellTree? c)
  | .get cell => do return .optionalTree (← cellTree? (← cellIn cell))
  | .isSet cell => do return .flag (← cellTree? (← cellIn cell)).isSome
  | .set cell value => do
    let c ← cellIn cell
    let v ← value.eval
    modifyStore fun store => { store with cells := store.cells.set c v }
    return .optionalTree (← cellTree? c)
  | .unset cell => do
    let c ← cellIn cell
    modifyStore fun store => { store with cells := store.cells.unset c }
    return .optionalTree (← cellTree? c)
  | .take cell => do
    let c ← cellIn cell
    let taken ← withStore fun store =>
      let (taken, cells) := store.cells.take c
      (taken, { store with cells })
    return .taken (taken.map (← heap).unfold) (← cellTree? c).isSome
  | .same a b => return .flag ((← cellIn a) == (← cellIn b))
  | .inspect cell => do
    let c ← cellIn cell
    let store ← store
    return .text (store.cells.inspect store.heap c)
  | .read cell message => do
    let c ← cellIn cell
    let p ← currentPrompt
    modifyStore fun store => store.readInto p c (message.getD Prompt.numberMessage)
    return .optionalTree (← cellTree? c)

def PromptStep.run (step : PromptStep) : Run Answer := do
  let p ← currentPrompt
  let prompt := (← store).prompt p
  match step with
  | .make answers =>
    let p ← withStore (·.makePrompt answers)
    modify fun s => { s with prompt := p }
    return .count answers.length
  | .push answer =>
    modifyStore (·.setPrompt p (prompt.push answer))
    return .count (prompt.push answer).remaining
  | .ask message => return .text (← withStore (·.ask p message))
  | .asked => return .texts prompt.asked
  | .remaining => return .count prompt.remaining
  | .inspect => return .text prompt.inspect

def PageStep.run : PageStep → Run Answer
  | .make kind => do
    modify fun s => { s with kind, memory := {} }
    return .outcome (.ok ())
  | .addElement id => do
    let page ← memoryPage
    modify fun s => { s with memory := page.addElement id }
    return .text id.name
  | .written => return .text (← memoryPage).written
  | .content id => return .optionalText ((← memoryPage).content? id)
  | .click id => do
    let _ ← memoryPage
    return .outcome (← perform (fun s => (s.memory, s.store))
      (fun (memory, store) s => { s with memory, store }) (MemoryPage.click Action.run id))
  | .writeText text => return .outcome (← onPage (Page.writeText text))
  | .showValue value => do
    let v ← value.eval
    let h ← heap
    return .outcome (← onPage (Page.showValue h v))
  | .findElement id => do
    let s ← get
    let found :=
      match s.kind with
      | .memory => Page.findElement s.memory id
      | .console => Page.findElement s.console id
    return .optionalText (found.map ElementId.name)
  | .findElementInto id cell => do
    let c ← cellIn cell
    let s ← get
    let cells :=
      match s.kind with
      | .memory => Page.findElementInto s.memory id c s.store.cells
      | .console => Page.findElementInto s.console id c s.store.cells
    modifyStore fun store => { store with cells }
    return .optionalTree (← cellTree? c)
  | .appendContent id text => return .outcome (← onPage (Page.appendContent id text))
  | .clearContent id => return .outcome (← onPage (Page.clearContent id))
  | .bindClick id forms => do
    let action ← resolveAction forms
    return .outcome (← onPage (Page.bindClick id action))
  | .output => do
    let text := (← get).console.output
    modify fun s => { s with console := { s.console with output := "" } }
    return .text text
  | .setFull full => do
    modify fun s => { s with console := { output := "", full } }
    return .outcome (.ok ())

def Step.run : Step → Run Answer
  | .list step => step.run
  | .value step => step.run
  | .cell step => step.run
  | .prompt step => step.run
  | .page step => step.run
  | .repeatAction n forms => do
    let action ← resolveAction forms
    let store ← store
    match repeatTimes n (counted (Action.run action)) (0, store) with
    | .ok _ (started, store) =>
      modifyStore fun _ => store
      return .repeated started (.ok ())
    | .error fault (started, store) =>
      modifyStore fun _ => store
      return .repeated started (.error fault)

/-- The answers of a script, run from an empty session. -/
def run (steps : List Step) : Except Misuse (List Answer) :=
  match steps.mapM Step.run {} with
  | .ok answers _ => .ok answers
  | .error misuse _ => .error misuse

end PageScript.Script
