import PageScript.Cells
import PageScript.Proofs.Records

/-!
# Handles of lists and cells

A client makes lists and cells, clones its handles to them, and changes what they hold through any
of these handles. Handles may be put into lists and cells, their own included, and be got out
again. A journal of the operations alone, without any store, says which handles should be
handles of one list or cell and what it should hold.

Main statement: the journal is right about every run, and an operation reaches nothing but the one
list or cell that it changes.
-/

namespace PageScript

/-- A value that a client gives. It names a list by the number of its handle. -/
inductive Operand where
  | number (x : Binary64)
  | text (s : String)
  | boolean (b : Bool)
  | element (id : ElementId)
  | null
  | held (x : Nat)

def Operand.value? (lists : List ListId) : Operand → Option Value
  | .number x => some (.number x)
  | .text s => some (.text s)
  | .boolean b => some (.boolean b)
  | .element id => some (.element id)
  | .null => some .null
  | .held x => lists[x]?.map .list

/--
An operation of a client. Handles of either kind are numbered in the order in which the client
gets them. `makeCell none` makes an unset cell.
-/
inductive Operation where
  | makeList (items : List Operand)
  | cloneList (x : Nat)
  | tail (x : Nat)
  | append (x : Nat) (v : Operand)
  | setAt (x index : Nat) (v : Operand)
  | clear (x : Nat)
  /-- Reads an element. The client keeps a handle that it finds there. -/
  | element (x index : Nat)
  | makeCell (v : Option Operand)
  | makeCellOfFields (fields : List (String × Operand))
  | cloneCell (c : Nat)
  | set (c : Nat) (v : Operand)
  | unset (c : Nat)
  /-- Empties a cell. The client keeps a handle that it finds there. -/
  | take (c : Nat)
  /-- Reads a cell. The client keeps a handle that it finds there. -/
  | get (c : Nat)

inductive Operation.Answer where
  | done
  | fault (f : Fault)
  | value (v : Option Value)

/-- The lists and cells that there are, and a client's handles to them. -/
structure Holder where
  heap : Heap := {}
  cells : Cells := {}
  lists : List ListId := []
  cellIds : List CellId := []

def Holder.keep (s : Holder) : Option Value → Holder
  | some (.list l) => { s with lists := s.lists ++ [l] }
  | _ => s

@[simp]
theorem Holder.keep_cells (s : Holder) (v : Option Value) : (s.keep v).cells = s.cells := by
  unfold keep
  split <;> rfl

@[simp]
theorem Holder.keep_cellIds (s : Holder) (v : Option Value) : (s.keep v).cellIds = s.cellIds := by
  unfold keep
  split <;> rfl

@[simp]
theorem Holder.keep_heap (s : Holder) (v : Option Value) : (s.keep v).heap = s.heap := by
  unfold keep
  split <;> rfl

theorem Holder.keep_lists (s : Holder) (v : Option Value) : s.lists <+: (s.keep v).lists := by
  unfold keep
  split
  · exact List.prefix_append _ _
  · exact List.prefix_rfl

namespace Operation

/-- The effect of an operation. There is none if the client has no handle of that number. -/
def run (op : Operation) (s : Holder) : Option (Answer × Holder) :=
  match op with
  | .makeList items => do
    let values ← items.mapM (Operand.value? s.lists)
    let (l, heap) := s.heap.make values
    return (.done, { s with heap, lists := s.lists ++ [l] })
  | .cloneList x => do
    let l ← s.lists[x]?
    return (.done, { s with lists := s.lists ++ [l] })
  | .tail x => do
    let l ← s.lists[x]?
    let (rest, heap) := s.heap.tail l
    return (.done, { s with heap, lists := s.lists ++ [rest] })
  | .append x v => do
    let l ← s.lists[x]?
    let v ← v.value? s.lists
    return (.done, { s with heap := s.heap.append l v })
  | .setAt x index v => do
    let l ← s.lists[x]?
    let v ← v.value? s.lists
    match s.heap.setAt l index v with
    | .ok heap => return (.done, { s with heap })
    | .error fault => return (.fault fault, s)
  | .clear x => do
    let l ← s.lists[x]?
    return (.done, { s with heap := s.heap.clear l })
  | .element x index => do
    let l ← s.lists[x]?
    let v := (s.heap.elements l)[index]?
    return (.value v, s.keep v)
  | .makeCell v => do
    let v ← v.mapM (Operand.value? s.lists)
    let (c, cells) := s.cells.make v
    return (.done, { s with cells, cellIds := s.cellIds ++ [c] })
  | .makeCellOfFields fields => do
    let values ← fields.mapM fun (name, v) => do return (name, ← v.value? s.lists)
    let (c, cells) := s.cells.ofFields values
    return (.done, { s with cells, cellIds := s.cellIds ++ [c] })
  | .cloneCell c => do
    let c ← s.cellIds[c]?
    return (.done, { s with cellIds := s.cellIds ++ [c] })
  | .set c v => do
    let c ← s.cellIds[c]?
    let v ← v.value? s.lists
    return (.done, { s with cells := s.cells.set c v })
  | .unset c => do
    let c ← s.cellIds[c]?
    return (.done, { s with cells := s.cells.unset c })
  | .take c => do
    let c ← s.cellIds[c]?
    let (v, cells) := s.cells.take c
    return (.value v, { s.keep v with cells })
  | .get c => do
    let c ← s.cellIds[c]?
    return (.value (s.cells.get? c), s.keep (s.cells.get? c))

end Operation

/-- All operations in order, from nothing. -/
def Holder.after? (ops : List Operation) : Option Holder :=
  ops.foldlM (fun s op => (op.run s).map Prod.snd) {}

/-- What a client has done: the number of operations, and the records of lists and of cells. -/
structure Journal where
  time : Nat := 0
  lists : Record (List Operand) := {}
  cells : Record (Option Operand) := {}

namespace Journal

/-- What the list of a handle holds. -/
def items (j : Journal) (x : Nat) : List Operand := (j.lists.holds? x).getD []

/-- What the cell of a handle holds. -/
def content (j : Journal) (c : Nat) : Option Operand := (j.cells.holds? c).join

/-- A handle that is got out is a clone of the one that was put in. -/
def keep (j : Journal) : Option Operand → Journal
  | some (.held x) => { j with lists := j.lists.share x }
  | _ => j

@[simp]
theorem keep_cells (j : Journal) (o : Option Operand) : (j.keep o).cells = j.cells := by
  unfold keep
  split <;> rfl

/-- Enters an operation. An operation that makes something is named by its own number. -/
def note (j : Journal) (op : Operation) : Journal :=
  let noted : Journal :=
    match op with
    | .makeList items => { j with lists := j.lists.make j.time items }
    | .cloneList x => { j with lists := j.lists.share x }
    | .tail x => { j with lists := j.lists.make j.time (j.items x).tail }
    | .append x v => { j with lists := j.lists.change x (· ++ [v]) }
    | .setAt x index v =>
      if index < (j.items x).length then { j with lists := j.lists.change x (·.set index v) }
      else j
    | .clear x => { j with lists := j.lists.change x fun _ => [] }
    | .element x index => j.keep (j.items x)[index]?
    | .makeCell v => { j with cells := j.cells.make j.time v }
    | .makeCellOfFields fields =>
      { j with cells := j.cells.make j.time (fields.lookup Cells.valueField) }
    | .cloneCell c => { j with cells := j.cells.share c }
    | .set c v => { j with cells := j.cells.change c fun _ => some v }
    | .unset c => { j with cells := j.cells.change c fun _ => none }
    | .take c => { j.keep (j.content c) with cells := j.cells.change c fun _ => none }
    | .get c => j.keep (j.content c)
  { noted with time := noted.time + 1 }

def of (ops : List Operation) : Journal := ops.foldl note {}

end Journal

/-- What a client has given is the value. -/
def Operand.Is (lists : List ListId) (o : Operand) (v : Value) : Prop := o.value? lists = some v

theorem Operand.Is.mono {lists : List ListId} {o : Operand} {v : Value} (h : o.Is lists v)
    (more : List ListId) : o.Is (lists ++ more) v := by
  cases o with
  | number y => exact h
  | text t => exact h
  | boolean b => exact h
  | element id => exact h
  | null => exact h
  | held x =>
    obtain ⟨l, hl, rfl⟩ := Option.map_eq_some_iff.mp h
    rw [Is, value?, getElem?_of_extends (List.prefix_append lists more) hl]
    rfl

/-- The handles that a client gives along with a value. -/
def Operand.named : Operand → List Nat
  | .held x => [x]
  | _ => []

theorem Operand.exists_is {lists : List ListId} {o : Operand}
    (h : ∀ x ∈ o.named, ∃ l, lists[x]? = some l) : ∃ v, o.Is lists v := by
  cases o with
  | held x =>
    obtain ⟨l, hl⟩ := h x List.mem_cons_self
    refine ⟨.list l, ?_⟩
    rw [Is, value?, hl]
    rfl
  | _ => exact ⟨_, rfl⟩

namespace Operation

/-- The handles of lists that an operation names. -/
def listsNamed : Operation → List Nat
  | .makeList items => items.flatMap Operand.named
  | .cloneList x | .tail x | .clear x | .element x _ => [x]
  | .append x v | .setAt x _ v => x :: v.named
  | .makeCell v => v.toList.flatMap Operand.named
  | .makeCellOfFields fields => fields.flatMap fun field => field.2.named
  | .set _ v => v.named
  | _ => []

/-- The handles of cells that an operation names. -/
def cellsNamed : Operation → List Nat
  | .cloneCell c | .set c _ | .unset c | .take c | .get c => [c]
  | _ => []

/-- The handle through which an operation changes a list. -/
def listChanged? : Operation → Option Nat
  | .append x _ => some x
  | .setAt x _ _ => some x
  | .clear x => some x
  | _ => none

/-- The handle through which an operation changes a cell. -/
def cellChanged? : Operation → Option Nat
  | .set c _ => some c
  | .unset c => some c
  | .take c => some c
  | _ => none

/-- All that an operation can reach. The client's old handles stay. -/
structure Reaches (op : Operation) (s t : Holder) : Prop where
  lists : s.lists <+: t.lists
  cellIds : s.cellIds <+: t.cellIds
  heap : t.heap = s.heap ∨ (∃ values, t.heap = (s.heap.make values).2) ∨
    ∃ y l f, op.listChanged? = some y ∧ s.lists[y]? = some l ∧ t.heap = s.heap.update l f
  cells : t.cells = s.cells ∨ (∃ v, t.cells = (s.cells.make v).2) ∨
    ∃ y c v, op.cellChanged? = some y ∧ s.cellIds[y]? = some c ∧ t.cells = s.cells.put c v

theorem reaches_keep (op : Operation) (s : Holder) (v : Option Value) :
    op.Reaches s (s.keep v) where
  lists := s.keep_lists v
  cellIds := s.keep_cellIds v ▸ List.prefix_rfl
  heap := .inl (s.keep_heap v)
  cells := .inl (s.keep_cells v)

/-- An element is replaced where there is one. Else nothing is. -/
theorem run_setAt {s : Holder} {x : Nat} {l : ListId} {v : Operand} {w : Value}
    (hx : s.lists[x]? = some l) (hv : v.Is s.lists w) (index : Nat) :
    (Operation.setAt x index v).run s =
      if index < s.heap.size l then
        some (.done, { s with heap := s.heap.update l (·.set index w) })
      else some (.fault (.indexOutOfBounds index (s.heap.size l)), s) := by
  rw [Operand.Is] at hv
  by_cases hindex : index < s.heap.size l <;> simp [run, hx, hv, Heap.setAt, hindex]

/-- An operation whose handles are all held has a result. -/
theorem exists_run {op : Operation} {s : Holder}
    (hlists : ∀ x ∈ op.listsNamed, ∃ l, s.lists[x]? = some l)
    (hcells : ∀ x ∈ op.cellsNamed, ∃ c, s.cellIds[x]? = some c) :
    ∃ answer t, op.run s = some (answer, t) := by
  cases op with
  | makeList items =>
    obtain ⟨values, hvalues⟩ := exists_mapM_eq_some fun o ho =>
      Operand.exists_is fun x hx => hlists x (List.mem_flatMap.mpr ⟨o, ho, hx⟩)
    exact ⟨_, _, by rw [run, hvalues]; rfl⟩
  | cloneList x | tail x | clear x | element x index =>
    obtain ⟨l, hl⟩ := hlists x List.mem_cons_self
    exact ⟨_, _, by rw [run, hl]; rfl⟩
  | append x v =>
    obtain ⟨⟨l, hl⟩, hnamed⟩ := List.forall_mem_cons.mp hlists
    obtain ⟨w, hw⟩ := Operand.exists_is hnamed
    exact ⟨_, _, by rw [run, hl, Option.bind_eq_bind, Option.bind_some, hw]; rfl⟩
  | setAt x index v =>
    obtain ⟨⟨l, hl⟩, hnamed⟩ := List.forall_mem_cons.mp hlists
    obtain ⟨w, hw⟩ := Operand.exists_is hnamed
    rw [run_setAt hl hw]
    split
    · exact ⟨_, _, rfl⟩
    · exact ⟨_, _, rfl⟩
  | makeCell v =>
    cases v with
    | none => exact ⟨_, _, rfl⟩
    | some o =>
      obtain ⟨w, hw⟩ := Operand.exists_is fun x hx => hlists x (by simpa [listsNamed] using hx)
      exact ⟨_, _, by rw [run, Option.mapM_some, hw]; rfl⟩
  | makeCellOfFields fields =>
    have hfields : ∀ field ∈ fields,
        ∃ q, (do return (field.1, ← field.2.value? s.lists)) = some q := by
      intro field hfield
      obtain ⟨w, hw⟩ := Operand.exists_is fun x hx =>
        hlists x (List.mem_flatMap.mpr ⟨field, hfield, hx⟩)
      exact ⟨(field.1, w), Option.bind_eq_some_iff.mpr ⟨w, hw, rfl⟩⟩
    obtain ⟨values, hvalues⟩ := exists_mapM_eq_some hfields
    exact ⟨_, _, Option.bind_eq_some_iff.mpr ⟨values, hvalues, rfl⟩⟩
  | cloneCell x | unset x | take x | get x =>
    obtain ⟨c, hc⟩ := hcells x List.mem_cons_self
    exact ⟨_, _, by rw [run, hc]; rfl⟩
  | set x v =>
    obtain ⟨c, hc⟩ := hcells x List.mem_cons_self
    obtain ⟨w, hw⟩ := Operand.exists_is hlists
    exact ⟨_, _, by rw [run, hc, Option.bind_eq_bind, Option.bind_some, hw]; rfl⟩

end Operation

/-- A store is as a journal says. -/
structure Holder.Follows (s : Holder) (j : Journal) : Prop where
  lists : Tracks (List.Forall₂ (Operand.Is s.lists)) j.time j.lists (s.lists.map ListId.index)
    s.heap.contents
  cells : Tracks (Option.Rel (Operand.Is s.lists)) j.time j.cells (s.cellIds.map CellId.index)
    s.cells.slots

namespace Holder.Follows

variable {s : Holder} {j : Journal}

theorem tick (h : s.Follows j) : s.Follows { j with time := j.time + 1 } :=
  ⟨h.lists.mono (fun _ _ => id) (Nat.le_succ _), h.cells.mono (fun _ _ => id) (Nat.le_succ _)⟩

theorem index {x : Nat} {l : ListId} (hx : s.lists[x]? = some l) :
    (s.lists.map ListId.index)[x]? = some l.index := by
  rw [List.getElem?_map, hx]
  rfl

theorem cellIndex {x : Nat} {c : CellId} (hx : s.cellIds[x]? = some c) :
    (s.cellIds.map CellId.index)[x]? = some c.index := by
  rw [List.getElem?_map, hx]
  rfl

theorem elements (h : s.Follows j) {x : Nat} {l : ListId} (hx : s.lists[x]? = some l) :
    ∃ items, j.lists.holds? x = some items ∧
      List.Forall₂ (Operand.Is s.lists) items (s.heap.elements l) := by
  obtain ⟨items, values, hitems, hvalues, hr⟩ := h.lists.holds (index hx)
  refine ⟨items, hitems, ?_⟩
  rw [Heap.elements, hvalues]
  exact hr

theorem items_is (h : s.Follows j) {x : Nat} {l : ListId} (hx : s.lists[x]? = some l) :
    List.Forall₂ (Operand.Is s.lists) (j.items x) (s.heap.elements l) := by
  obtain ⟨items, hitems, hr⟩ := h.elements hx
  rwa [Journal.items, hitems]

theorem value (h : s.Follows j) {x : Nat} {c : CellId} (hx : s.cellIds[x]? = some c) :
    ∃ content, j.cells.holds? x = some content ∧
      Option.Rel (Operand.Is s.lists) content (s.cells.get? c) := by
  obtain ⟨content, value, hcontent, hvalue, hr⟩ := h.cells.holds (cellIndex hx)
  refine ⟨content, hcontent, ?_⟩
  rw [Cells.get?, hvalue]
  exact hr

theorem content_is (h : s.Follows j) {x : Nat} {c : CellId} (hx : s.cellIds[x]? = some c) :
    Option.Rel (Operand.Is s.lists) (j.content x) (s.cells.get? c) := by
  obtain ⟨content, hcontent, hr⟩ := h.value hx
  rwa [Journal.content, hcontent]

/-- What is in the cells stays what it is when the client gets another handle. -/
theorem cells_mono (h : s.Follows j) (l : ListId) :
    Tracks (Option.Rel (Operand.Is (s.lists ++ [l]))) j.time j.cells
      (s.cellIds.map CellId.index) s.cells.slots := by
  refine h.cells.mono (fun o v hr => ?_) (Nat.le_refl _)
  cases hr with
  | some hr => exact .some (hr.mono [l])
  | none => exact .none

theorem share_list (h : s.Follows j) {x : Nat} {l : ListId} (hx : s.lists[x]? = some l) :
    Follows { s with lists := s.lists ++ [l] } { j with lists := j.lists.share x } := by
  refine ⟨?_, h.cells_mono l⟩
  rw [List.map_append]
  exact (h.lists.share (index hx)).mono (fun _ _ hr => hr.imp fun _ _ ho => ho.mono [l])
    (Nat.le_refl _)

theorem make_list (h : s.Follows j) {items : List Operand} {values : List Value}
    (hr : List.Forall₂ (Operand.Is s.lists) items values) :
    Follows { s with heap := (s.heap.make values).2, lists := s.lists ++ [(s.heap.make values).1] }
      { j with lists := j.lists.make j.time items, time := j.time + 1 } := by
  refine ⟨?_, (h.cells_mono _).mono (fun _ _ => id) (Nat.le_succ _)⟩
  rw [List.map_append]
  exact (h.lists.make hr).mono (fun _ _ hr => hr.imp fun _ _ ho => ho.mono _) (Nat.le_refl _)

theorem change_list (h : s.Follows j) {x : Nat} {l : ListId} (hx : s.lists[x]? = some l)
    {f : List Operand → List Operand} {g : List Value → List Value}
    (hfg : ∀ items values, List.Forall₂ (Operand.Is s.lists) items values →
      List.Forall₂ (Operand.Is s.lists) (f items) (g values)) :
    Follows { s with heap := s.heap.update l g } { j with lists := j.lists.change x f } :=
  ⟨h.lists.change (index hx) hfg, h.cells⟩

theorem share_cell (h : s.Follows j) {x : Nat} {c : CellId} (hx : s.cellIds[x]? = some c) :
    Follows { s with cellIds := s.cellIds ++ [c] } { j with cells := j.cells.share x } := by
  refine ⟨h.lists, ?_⟩
  rw [List.map_append]
  exact h.cells.share (cellIndex hx)

theorem make_cell (h : s.Follows j) {content : Option Operand} {value : Option Value}
    (hr : Option.Rel (Operand.Is s.lists) content value) :
    Follows
      { s with cells := (s.cells.make value).2, cellIds := s.cellIds ++ [(s.cells.make value).1] }
      { j with cells := j.cells.make j.time content, time := j.time + 1 } := by
  refine ⟨h.lists.mono (fun _ _ => id) (Nat.le_succ _), ?_⟩
  rw [List.map_append]
  exact h.cells.make hr

theorem put_cell (h : s.Follows j) {x : Nat} {c : CellId} (hx : s.cellIds[x]? = some c)
    {content : Option Operand} {value : Option Value}
    (hr : Option.Rel (Operand.Is s.lists) content value) :
    Follows { s with cells := s.cells.put c value }
      { j with cells := j.cells.change x fun _ => content } :=
  ⟨h.lists, h.cells.change (cellIndex hx) fun _ _ _ => hr⟩

theorem keep (h : s.Follows j) {content : Option Operand} {value : Option Value}
    (hr : Option.Rel (Operand.Is s.lists) content value) :
    Follows (s.keep value) (j.keep content) := by
  cases hr with
  | none => exact h
  | @some o v ho =>
    cases o with
    | number y =>
      cases ho
      exact h
    | text t =>
      cases ho
      exact h
    | boolean b =>
      cases ho
      exact h
    | element id =>
      cases ho
      exact h
    | null =>
      cases ho
      exact h
    | held x =>
      obtain ⟨l, hl, rfl⟩ := Option.map_eq_some_iff.mp ho
      exact h.share_list hl

/-- The first field with the name is the same field on both sides. -/
theorem field_is {lists : List ListId} {fields : List (String × Operand)}
    {values : List (String × Value)}
    (h : List.Forall₂ (fun p q => (do return (p.1, ← p.2.value? lists)) = some q) fields values) :
    Option.Rel (Operand.Is lists) (fields.lookup Cells.valueField)
      ((values.find? fun field => field.1 == Cells.valueField).map Prod.snd) := by
  induction h with
  | nil => exact .none
  | @cons p q fields values hpq _ ih =>
    obtain ⟨v, (hv : p.2.Is lists v), hq⟩ := Option.bind_eq_some_iff.mp hpq
    cases hq
    by_cases hname : p.1 = Cells.valueField
    · have hfield : (Cells.valueField == p.1) = true := by simpa using hname.symm
      rw [List.lookup_cons, hfield]
      simpa [hname] using hv
    · have hfield : (Cells.valueField == p.1) = false := by simpa using Ne.symm hname
      rw [List.lookup_cons, hfield]
      simpa [hname] using ih

/-- Every operation does to the store what it enters in the journal, and reaches nothing else. -/
theorem run (h : s.Follows j) {op : Operation} {answer : Operation.Answer} {t : Holder}
    (hrun : op.run s = some (answer, t)) : t.Follows (j.note op) ∧ op.Reaches s t := by
  have hlists : s.lists <+: s.lists := List.prefix_rfl
  have hcellIds : s.cellIds <+: s.cellIds := List.prefix_rfl
  -- Each case finds the handles that the operation names and is then one step of the records.
  cases op with
  | makeList items =>
    obtain ⟨values, hvalues, hrun⟩ := Option.bind_eq_some_iff.mp hrun
    cases hrun
    exact ⟨h.make_list (forall₂_of_mapM hvalues),
      List.prefix_append _ _, hcellIds, .inr (.inl ⟨values, rfl⟩), .inl rfl⟩
  | cloneList x =>
    obtain ⟨l, hl, hrun⟩ := Option.bind_eq_some_iff.mp hrun
    cases hrun
    exact ⟨(h.share_list hl).tick, List.prefix_append _ _, hcellIds, .inl rfl, .inl rfl⟩
  | tail x =>
    obtain ⟨l, hl, hrun⟩ := Option.bind_eq_some_iff.mp hrun
    cases hrun
    have htail := List.forall₂_drop 1 (h.items_is hl)
    rw [List.drop_one, List.drop_one] at htail
    exact ⟨h.make_list htail,
      List.prefix_append _ _, hcellIds, .inr (.inl ⟨_, rfl⟩), .inl rfl⟩
  | append x v =>
    obtain ⟨l, hl, hrun⟩ := Option.bind_eq_some_iff.mp hrun
    obtain ⟨w, hw, hrun⟩ := Option.bind_eq_some_iff.mp hrun
    cases hrun
    exact ⟨(h.change_list hl fun _ _ hr => List.rel_append hr (.cons hw .nil)).tick,
      hlists, hcellIds, .inr (.inr ⟨x, l, _, rfl, hl, rfl⟩), .inl rfl⟩
  | setAt x index v =>
    obtain ⟨l, hl, hrest⟩ := Option.bind_eq_some_iff.mp hrun
    obtain ⟨w, hw, -⟩ := Option.bind_eq_some_iff.mp hrest
    -- The list is as long as the journal has it, so both say the same of the index.
    have hlength : (j.items x).length = s.heap.size l := (h.items_is hl).length_eq
    rw [Operation.run_setAt hl hw] at hrun
    by_cases hindex : index < s.heap.size l
    · rw [if_pos hindex] at hrun
      cases hrun
      rw [Journal.note, if_pos (hlength ▸ hindex)]
      exact ⟨(h.change_list hl fun _ _ hr => forall₂_set hr hw index).tick,
        hlists, hcellIds, .inr (.inr ⟨x, l, _, rfl, hl, rfl⟩), .inl rfl⟩
    · rw [if_neg hindex] at hrun
      cases hrun
      rw [Journal.note, if_neg (hlength ▸ hindex)]
      exact ⟨h.tick, hlists, hcellIds, .inl rfl, .inl rfl⟩
  | clear x =>
    obtain ⟨l, hl, hrun⟩ := Option.bind_eq_some_iff.mp hrun
    cases hrun
    exact ⟨(h.change_list hl fun _ _ _ => .nil).tick,
      hlists, hcellIds, .inr (.inr ⟨x, l, _, rfl, hl, rfl⟩), .inl rfl⟩
  | element x index =>
    obtain ⟨l, hl, hrun⟩ := Option.bind_eq_some_iff.mp hrun
    cases hrun
    exact ⟨(h.keep (forall₂_getElem? (h.items_is hl) index)).tick, Operation.reaches_keep _ s _⟩
  | makeCell v =>
    obtain ⟨w, hw, hrun⟩ := Option.bind_eq_some_iff.mp hrun
    cases hrun
    have hvalue : Option.Rel (Operand.Is s.lists) v w := by
      cases v with
      | none =>
        cases hw
        exact .none
      | some o =>
        obtain ⟨w, ho, rfl⟩ := Option.map_eq_some_iff.mp hw
        exact .some ho
    exact ⟨h.make_cell hvalue, hlists, List.prefix_append _ _, .inl rfl, .inr (.inl ⟨w, rfl⟩)⟩
  | makeCellOfFields fields =>
    obtain ⟨values, hvalues, hrun⟩ := Option.bind_eq_some_iff.mp hrun
    cases hrun
    exact ⟨h.make_cell (field_is (forall₂_of_mapM hvalues)),
      hlists, List.prefix_append _ _, .inl rfl, .inr (.inl ⟨_, rfl⟩)⟩
  | cloneCell x =>
    obtain ⟨c, hc, hrun⟩ := Option.bind_eq_some_iff.mp hrun
    cases hrun
    exact ⟨(h.share_cell hc).tick, hlists, List.prefix_append _ _, .inl rfl, .inl rfl⟩
  | set x v =>
    obtain ⟨c, hc, hrun⟩ := Option.bind_eq_some_iff.mp hrun
    obtain ⟨w, hw, hrun⟩ := Option.bind_eq_some_iff.mp hrun
    cases hrun
    exact ⟨(h.put_cell hc (.some hw)).tick,
      hlists, hcellIds, .inl rfl, .inr (.inr ⟨x, c, _, rfl, hc, rfl⟩)⟩
  | unset x =>
    obtain ⟨c, hc, hrun⟩ := Option.bind_eq_some_iff.mp hrun
    cases hrun
    exact ⟨(h.put_cell hc .none).tick,
      hlists, hcellIds, .inl rfl, .inr (.inr ⟨x, c, _, rfl, hc, rfl⟩)⟩
  | take x =>
    obtain ⟨c, hc, hrun⟩ := Option.bind_eq_some_iff.mp hrun
    cases hrun
    -- A handle that is found is kept before the cell is emptied.
    have hkept := h.keep (h.content_is hc)
    have hc' : (s.keep (s.cells.get? c)).cellIds[x]? = some c := by rw [keep_cellIds, hc]
    have hput := hkept.put_cell hc' .none
    rw [keep_cells, Journal.keep_cells] at hput
    have hreach := Operation.reaches_keep (.take x) s (s.cells.get? c)
    exact ⟨hput.tick,
      hreach.lists, hreach.cellIds, hreach.heap, .inr (.inr ⟨x, c, _, rfl, hc, rfl⟩)⟩
  | get x =>
    obtain ⟨c, hc, hrun⟩ := Option.bind_eq_some_iff.mp hrun
    cases hrun
    exact ⟨(h.keep (h.content_is hc)).tick, Operation.reaches_keep _ s _⟩

theorem run_all {ops : List Operation} {t : Holder} (h : s.Follows j)
    (hrun : ops.foldlM (fun s op => (op.run s).map Prod.snd) s = some t) :
    t.Follows (ops.foldl Journal.note j) := by
  induction ops generalizing s j with
  | nil =>
    cases hrun
    exact h
  | cons op ops ih =>
    rw [List.foldlM_cons] at hrun
    obtain ⟨u, hu, hrun⟩ := Option.bind_eq_some_iff.mp hrun
    obtain ⟨⟨answer, u⟩, hop, rfl⟩ := Option.map_eq_some_iff.mp hu
    exact ih (h.run hop).1 hrun

end Holder.Follows

theorem Holder.follows_of_after? {ops : List Operation} {s : Holder}
    (h : Holder.after? ops = some s) : s.Follows (Journal.of ops) :=
  Follows.run_all ⟨.start _ _, .start _ _⟩ h

namespace Holder.Follows

variable {s t : Holder} {j : Journal} {op : Operation}

theorem same_list_iff (h : s.Follows j) {x y : Nat} {l k : ListId} (hx : s.lists[x]? = some l)
    (hy : s.lists[y]? = some k) :
    (l == k) = true ↔ j.lists.origins[x]? = j.lists.origins[y]? := by
  rw [← h.lists.eq_iff (index hx) (index hy), beq_iff_eq]
  constructor
  · exact congrArg ListId.index
  · intro hi
    cases l
    exact congrArg ListId.mk hi

theorem same_cell_iff (h : s.Follows j) {x y : Nat} {c d : CellId} (hx : s.cellIds[x]? = some c)
    (hy : s.cellIds[y]? = some d) :
    (c == d) = true ↔ j.cells.origins[x]? = j.cells.origins[y]? := by
  rw [← h.cells.eq_iff (cellIndex hx) (cellIndex hy), beq_iff_eq]
  constructor
  · exact congrArg CellId.index
  · intro hi
    cases c
    exact congrArg CellId.mk hi

/-- A list is not reached by what is done through handles that go back to another operation. -/
theorem elements_of_reaches (h : s.Follows j) (hreach : op.Reaches s t) {x : Nat} {l : ListId}
    (hx : s.lists[x]? = some l)
    (hother : ∀ y, op.listChanged? = some y → j.lists.origins[y]? ≠ j.lists.origins[x]?) :
    t.heap.elements l = s.heap.elements l := by
  rcases hreach.heap with hsame | ⟨values, hmade⟩ | ⟨y, k, f, hy, hk, hchanged⟩
  · rw [hsame]
  · obtain ⟨-, values', -, hslot, -⟩ := h.lists.holds (index hx)
    rw [hmade, s.heap.elements_make_of_lt values (Array.getElem?_eq_some_iff.mp hslot).1]
  · rw [hchanged]
    apply Heap.elements_update_ne
    rintro rfl
    exact hother y hy ((h.same_list_iff hk hx).mp (beq_self_eq_true l))

theorem get?_of_reaches (h : s.Follows j) (hreach : op.Reaches s t) {x : Nat} {c : CellId}
    (hx : s.cellIds[x]? = some c)
    (hother : ∀ y, op.cellChanged? = some y → j.cells.origins[y]? ≠ j.cells.origins[x]?) :
    t.cells.get? c = s.cells.get? c := by
  rcases hreach.cells with hsame | ⟨v, hmade⟩ | ⟨y, d, v, hy, hd, hchanged⟩
  · rw [hsame]
  · obtain ⟨-, v', -, hslot, -⟩ := h.cells.holds (cellIndex hx)
    rw [hmade, s.cells.get?_make_of_lt v (Array.getElem?_eq_some_iff.mp hslot).1]
  · rw [hchanged]
    apply Cells.get?_put_ne
    rintro rfl
    exact hother y hy ((h.same_cell_iff hd hx).mp (beq_self_eq_true c))

end Holder.Follows

/--
After any run, handles are the same exactly if they go back to the same operation, and what is
seen through a handle is what was put in at first and then all that was done through any handle
that goes back to the same operation. No further operation reaches the list or cell of a handle
that goes back to another operation than the handle it changes something through. An operation has
a result if the client holds all handles that it names. Replacing an element fails exactly if there
is none at the index, and then does nothing.
-/
theorem handles_follow_journal {ops : List Operation} {s : Holder}
    (h : Holder.after? ops = some s) :
    let j := Journal.of ops
    (∀ (x y : Nat) (l k : ListId), s.lists[x]? = some l → s.lists[y]? = some k →
      ((l == k) = true ↔ j.lists.origins[x]? = j.lists.origins[y]?)) ∧
    (∀ (x y : Nat) (c d : CellId), s.cellIds[x]? = some c → s.cellIds[y]? = some d →
      ((c == d) = true ↔ j.cells.origins[x]? = j.cells.origins[y]?)) ∧
    (∀ (x : Nat) (l : ListId), s.lists[x]? = some l →
      ∃ items, j.lists.holds? x = some items ∧
        List.Forall₂ (Operand.Is s.lists) items (s.heap.elements l)) ∧
    (∀ (x : Nat) (c : CellId), s.cellIds[x]? = some c →
      ∃ content, j.cells.holds? x = some content ∧
        Option.Rel (Operand.Is s.lists) content (s.cells.get? c)) ∧
    (∀ (op : Operation) (answer : Operation.Answer) (t : Holder), op.run s = some (answer, t) →
      (∀ (x : Nat) (l : ListId), s.lists[x]? = some l →
        (∀ y, op.listChanged? = some y → j.lists.origins[y]? ≠ j.lists.origins[x]?) →
        t.lists[x]? = some l ∧ t.heap.elements l = s.heap.elements l) ∧
      (∀ (x : Nat) (c : CellId), s.cellIds[x]? = some c →
        (∀ y, op.cellChanged? = some y → j.cells.origins[y]? ≠ j.cells.origins[x]?) →
        t.cellIds[x]? = some c ∧ t.cells.get? c = s.cells.get? c)) ∧
    (∀ op : Operation, (∀ x ∈ op.listsNamed, ∃ l, s.lists[x]? = some l) →
      (∀ x ∈ op.cellsNamed, ∃ c, s.cellIds[x]? = some c) →
      ∃ answer t, op.run s = some (answer, t)) ∧
    (∀ (x index : Nat) (l : ListId) (v : Operand) (w : Value), s.lists[x]? = some l →
      v.Is s.lists w →
      (Operation.setAt x index v).run s =
        if index < s.heap.size l then
          some (.done, { s with heap := s.heap.update l (·.set index w) })
        else some (.fault (.indexOutOfBounds index (s.heap.size l)), s)) := by
  have hfollows := Holder.follows_of_after? h
  refine ⟨?_, ?_, ?_, ?_, ?_, ?_, ?_⟩
  · intro x y l k hx hy
    exact hfollows.same_list_iff hx hy
  · intro x y c d hx hy
    exact hfollows.same_cell_iff hx hy
  · intro x l hx
    exact hfollows.elements hx
  · intro x c hx
    exact hfollows.value hx
  · intro op answer t hrun
    have hreach := (hfollows.run hrun).2
    refine ⟨?_, ?_⟩
    · intro x l hx hother
      exact ⟨getElem?_of_extends hreach.lists hx, hfollows.elements_of_reaches hreach hx hother⟩
    · intro x c hx hother
      exact ⟨getElem?_of_extends hreach.cellIds hx, hfollows.get?_of_reaches hreach hx hother⟩
  · intro op hlists hcells
    exact Operation.exists_run hlists hcells
  · intro x index l v w hx hv
    exact Operation.run_setAt hx hv index

/--
A list that is put into itself through a clone, and its tail, which is put into a cell, got out
again and changed. A replacement behind the end of the tail fails before that.
-/
def sharedRun : List Operation :=
  [.makeList [.null, .boolean true], .cloneList 0, .tail 0,
    .append 1 (.held 0), .makeCell (some (.held 2)), .setAt 2 5 (.held 1), .get 0,
    .append 3 .null]

theorem handles_follow_journal_sharedRun :
    ∃ s, Holder.after? sharedRun = some s ∧
      (Journal.of sharedRun).lists.origins = [0, 0, 2, 2] ∧
      s.lists = [⟨0⟩, ⟨0⟩, ⟨1⟩, ⟨1⟩] ∧
      s.heap.elements ⟨0⟩ = [.null, .boolean true, .list ⟨0⟩] ∧
      s.heap.elements ⟨1⟩ = [.boolean true, .null] ∧
      ∃ items, (Journal.of sharedRun).lists.holds? 2 = some items ∧
        List.Forall₂ (Operand.Is s.lists) items (s.heap.elements ⟨1⟩) :=
  ⟨_, rfl, rfl, rfl, rfl, rfl, (handles_follow_journal rfl).2.2.1 2 ⟨1⟩ rfl⟩

end PageScript
