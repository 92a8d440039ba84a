import PageScript.Value

/-!
# The heap of shared lists

`Heap.elements` is what a list holds. Each operation is described by what it does to the
elements of its own list; every other list keeps its elements.
-/

namespace PageScript

/-- The shared lists, by the index of their handle. -/
structure Heap where
  contents : Array (List Value) := #[]

namespace Heap

def listCount (h : Heap) : Nat := h.contents.size

/-- What a list holds. A handle from elsewhere holds nothing. -/
def elements (h : Heap) (l : ListId) : List Value := (h.contents[l.index]?).getD []

def make (h : Heap) (items : List Value) : ListId × Heap :=
  (⟨h.contents.size⟩, ⟨h.contents.push items⟩)

/-- Changes what a list holds. -/
def update (h : Heap) (l : ListId) (f : List Value → List Value) : Heap :=
  ⟨h.contents.modify l.index f⟩

def size (h : Heap) (l : ListId) : Nat := (h.elements l).length

def append (h : Heap) (l : ListId) (v : Value) : Heap := h.update l (· ++ [v])

/-- Replaces the element at an index that is within the list. -/
def setAt (h : Heap) (l : ListId) (index : Nat) (v : Value) : Except Fault Heap :=
  if index < h.size l then .ok (h.update l (·.set index v))
  else .error (.indexOutOfBounds index (h.size l))

def clear (h : Heap) (l : ListId) : Heap := h.update l fun _ => []

def head? (h : Heap) (l : ListId) : Option Value := (h.elements l).head?

def last? (h : Heap) (l : ListId) : Option Value := (h.elements l).getLast?

/-- Makes a list of all elements but the first, also for an empty list. -/
def tail (h : Heap) (l : ListId) : ListId × Heap := h.make (h.elements l).tail

@[simp]
theorem elements_make (h : Heap) (items : List Value) :
    (h.make items).2.elements (h.make items).1 = items := by
  simp [make, elements]

theorem elements_make_of_lt (h : Heap) (items : List Value) {l : ListId}
    (hl : l.index < h.listCount) : (h.make items).2.elements l = h.elements l := by
  simp only [listCount] at hl
  simp [make, elements, Array.getElem?_push, Nat.ne_of_lt hl]

theorem elements_update (h : Heap) {l : ListId} (f : List Value → List Value)
    (hl : l.index < h.listCount) : (h.update l f).elements l = f (h.elements l) := by
  simp only [listCount] at hl
  simp [update, elements, Array.getElem_modify, hl]

theorem elements_update_ne (h : Heap) {l k : ListId} (f : List Value → List Value)
    (hk : k ≠ l) : (h.update l f).elements k = h.elements k := by
  have hi : ¬ l.index = k.index := fun e => hk (by cases l; cases k; simp_all)
  simp [update, elements, Array.getElem?_modify, hi]

@[simp]
theorem listCount_update (h : Heap) (l : ListId) (f : List Value → List Value) :
    (h.update l f).listCount = h.listCount := by
  simp [update, listCount]

@[simp]
theorem listCount_make (h : Heap) (items : List Value) :
    (h.make items).2.listCount = h.listCount + 1 := by
  simp [make, listCount]

/-- A list that holds something is one of the heap's. -/
theorem lt_listCount_of_mem (h : Heap) {l : ListId} {v : Value} (hv : v ∈ h.elements l) :
    l.index < h.listCount := by
  by_cases hl : l.index < h.contents.size
  · exact hl
  · simp [elements, Array.getElem?_eq_none (Nat.le_of_not_lt hl)] at hv

end Heap

end PageScript
