import PageScript.Heap.Tree

/-!
# Unfolding and reachability

How the tree of a value depends on the path above it. A list on the path matters only if the
value reaches it, and apart from the levels written at the cuts only the set of lists on the
path matters, not their order. Lists off the path unfold to all their elements.
-/

namespace PageScript

/-- The tree without the levels at its cuts. -/
def Tree.forgetLevels : Tree → Tree
  | .items children => .items (children.map forgetLevels)
  | .cut _ => .cut 0
  | t => t

namespace Heap

/-- The lists that a value is or contains at any depth. -/
inductive Reaches (h : Heap) : Value → ListId → Prop where
  | here (l : ListId) : Reaches h (.list l) l
  | inside {l k : ListId} {v : Value} (hv : v ∈ h.elements l) (hk : Reaches h v k) :
    Reaches h (.list l) k

variable {h : Heap} {path path' : List ListId} {l : ListId}

theorem unfoldBelow_of_mem (hl : l ∈ path) :
    h.unfoldBelow path (.list l) = .cut (path.length - 1 - path.idxOf l) := by
  rw [unfoldBelow, dif_pos hl]

theorem unfoldBelow_of_notMem (hl : l ∉ path) :
    h.unfoldBelow path (.list l) = .items ((h.elements l).map (h.unfoldBelow (l :: path))) := by
  rw [unfoldBelow, dif_neg hl]
  simp

theorem unopened_le (h : Heap) (path : List ListId) : h.unopened path ≤ h.listCount := by
  have hle := List.countP_le_length (p := fun i : Nat => decide (⟨i⟩ ∉ path))
    (l := List.range h.listCount)
  rwa [List.length_range] at hle

/-- The lists that the elements of a list reach see one more list on the path. -/
theorem mem_path_cons_iff
    (hp : ∀ k, h.Reaches (.list l) k → (k ∈ path ↔ k ∈ path')) {v : Value}
    (hv : v ∈ h.elements l) {k : ListId} (hk : h.Reaches v k) :
    k ∈ l :: path ↔ k ∈ l :: path' := by
  rw [List.mem_cons, List.mem_cons, hp k (.inside hv hk)]

/-- Of the path above a value only the lists that it reaches matter, in any order. -/
theorem forgetLevels_unfoldBelow_congr {v : Value}
    (hp : ∀ k, h.Reaches v k → (k ∈ path ↔ k ∈ path')) :
    (h.unfoldBelow path v).forgetLevels = (h.unfoldBelow path' v).forgetLevels := by
  induction path, v using unfoldBelow.induct (h := h) generalizing path' with
  | case1 path x => simp only [unfoldBelow]
  | case2 path s => simp only [unfoldBelow]
  | case3 path b => simp only [unfoldBelow]
  | case4 path id => simp only [unfoldBelow]
  | case5 path => simp only [unfoldBelow]
  | case6 path l hl =>
    have hl' : l ∈ path' := (hp l (.here l)).mp hl
    rw [unfoldBelow_of_mem hl, unfoldBelow_of_mem hl', Tree.forgetLevels, Tree.forgetLevels]
  | case7 path l hl ih =>
    have hl' : l ∉ path' := fun hm => hl ((hp l (.here l)).mpr hm)
    rw [unfoldBelow_of_notMem hl, unfoldBelow_of_notMem hl', Tree.forgetLevels, Tree.forgetLevels,
      List.map_map, List.map_map]
    congr 1
    apply List.map_congr_left
    intro v hv
    exact ih v hv fun k hk => mem_path_cons_iff hp hv hk

end Heap

end PageScript
