import PageScript.Heap.Basic

/-!
# Values as trees

A value unfolds to a tree by following its lists. A list that is already on the path from
the root is cut there, so the tree is finite, whatever the lists contain.
-/

namespace PageScript

/-- A value without sharing. -/
inductive Tree where
  | number (x : Binary64)
  | text (s : String)
  | boolean (b : Bool)
  | element (id : ElementId)
  | null
  | items (children : List Tree)
  /-- A list that is already open, by how many open lists enclose it. -/
  | cut (level : Nat)

namespace Heap

/-- How many lists of the heap are not on a path. -/
def unopened (h : Heap) (path : List ListId) : Nat :=
  (List.range h.listCount).countP fun i => ⟨i⟩ ∉ path

/-- Opening a list of the heap leaves fewer unopened. -/
theorem unopened_cons_lt (h : Heap) {path : List ListId} {l : ListId} (hl : l.index < h.listCount)
    (hp : l ∉ path) : h.unopened (l :: path) < h.unopened path := by
  have hsplit := List.countP_eq_countP_filter_add (List.range h.listCount)
    (fun i => decide (⟨i⟩ ∉ path)) (fun i => decide (⟨i⟩ = l))
  rw [List.countP_filter, List.countP_filter] at hsplit
  have hrest : h.unopened (l :: path) =
      (List.range h.listCount).countP fun i => decide (⟨i⟩ ∉ path) && !decide (⟨i⟩ = l) := by
    refine List.countP_congr fun i _ => ?_
    simp [and_comm]
  have hopened : 0 < (List.range h.listCount).countP
      fun i => decide (⟨i⟩ ∉ path) && decide (⟨i⟩ = l) :=
    List.countP_pos_iff.mpr ⟨l.index, List.mem_range.mpr hl, by simp [hp]⟩
  rw [hrest, unopened]
  omega

/-- The tree of a value below a path of open lists, innermost first. -/
def unfoldBelow (h : Heap) (path : List ListId) (v : Value) : Tree :=
  match v with
  | .number x => .number x
  | .text s => .text s
  | .boolean b => .boolean b
  | .element id => .element id
  | .null => .null
  | .list l =>
    if _open : l ∈ path then .cut (path.length - 1 - path.idxOf l)
    else .items ((h.elements l).attach.map fun ⟨w, _⟩ => unfoldBelow h (l :: path) w)
termination_by h.unopened path
decreasing_by exact h.unopened_cons_lt (h.lt_listCount_of_mem ‹w ∈ h.elements l›) _open

def unfold (h : Heap) (v : Value) : Tree := h.unfoldBelow [] v

end Heap

end PageScript
