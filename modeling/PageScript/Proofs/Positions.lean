import Mathlib.Order.Bounds.Defs
import PageScript.Proofs.Acyclic
import PageScript.Proofs.EqualityLaws

/-!
# Positions in a list that grows

Looking for a value compares it with the elements of a list, and a comparison walks through the very
heap that appending changes. As long as neither the elements nor the values reach the list itself,
no comparison sees the change.

Main statement: appending keeps every position that was found before, and a value that was not found
is found at the end if it is equal to itself.
-/

namespace PageScript.Heap

variable {h : Heap} {l : ListId} {v w x y : Value} {i : Nat}

/-- The element at a position is equal to a value. -/
def EqualAt (h : Heap) (l : ListId) (v : Value) (i : Nat) : Prop :=
  ∃ w, (h.elements l)[i]? = some w ∧ h.equal w v = true

theorem EqualAt.lt_size (hi : h.EqualAt l v i) : i < h.size l := by
  obtain ⟨w, hw, -⟩ := hi
  exact (List.getElem?_eq_some_iff.mp hw).1

theorem position?_eq_some_iff : h.position? l v = some i ↔ IsLeast {j | h.EqualAt l v j} i := by
  rw [position?, List.findIdx?_eq_some_iff_getElem]
  constructor
  · rintro ⟨hlt, hequal, hfirst⟩
    refine ⟨⟨_, List.getElem?_eq_getElem hlt, hequal⟩, fun j hj => Nat.not_lt.mp fun hji => ?_⟩
    obtain ⟨w, hw, hequal⟩ := hj
    obtain ⟨_, rfl⟩ := List.getElem?_eq_some_iff.mp hw
    exact hfirst j hji hequal
  · rintro ⟨⟨w, hw, hequal⟩, hleast⟩
    obtain ⟨hlt, rfl⟩ := List.getElem?_eq_some_iff.mp hw
    refine ⟨hlt, hequal, fun j hji hj => ?_⟩
    exact Nat.not_le.mpr hji (hleast ⟨_, List.getElem?_eq_getElem _, hj⟩)

theorem position?_eq_none_iff : h.position? l v = none ↔ ∀ i, ¬ h.EqualAt l v i := by
  simp only [position?, List.findIdx?_eq_none_iff, List.mem_iff_getElem?, EqualAt, not_exists,
    not_and, Bool.not_eq_true]
  exact ⟨fun hnone i w hw => hnone w ⟨i, hw⟩, fun hnone w ⟨i, hw⟩ => hnone i w hw⟩

theorem indexOf_eq_natCast_iff : h.indexOf l v = i ↔ h.position? l v = some i := by
  rw [indexOf]
  cases h.position? l v with
  | none => simp
  | some j => rw [Option.some.injEq, Int.natCast_inj]

theorem indexOf_eq_neg_one_iff : h.indexOf l v = -1 ↔ h.position? l v = none := by
  rw [indexOf]
  cases h.position? l v with
  | none => simp
  | some j => simp

theorem elements_append (hl : l.index < h.listCount) :
    (h.append l x).elements l = h.elements l ++ [x] :=
  h.elements_update _ hl

theorem equal_append (hv : ¬ h.Reaches v l) (hw : ¬ h.Reaches w l) :
    (h.append l x).equal v w = h.equal v w := by
  refine equal_congr_of_reaches fun k hk => h.elements_update_ne _ ?_
  rintro rfl
  exact hk.elim hv hw

section Append

variable (hl : l.index < h.listCount) (hx : ¬ h.Reaches x l)
  (helements : ∀ w ∈ h.elements l, ¬ h.Reaches w l) (hy : ¬ h.Reaches y l)
include hl hx helements hy

/-- Only the new position may be added. -/
theorem equalAt_append_iff :
    (h.append l x).EqualAt l y i ↔ h.EqualAt l y i ∨ i = h.size l ∧ h.equal x y = true := by
  rw [EqualAt, elements_append hl, List.getElem?_append, EqualAt, size]
  by_cases hi : i < (h.elements l).length
  · rw [if_pos hi, or_iff_left fun hend => Nat.ne_of_lt hi hend.1]
    refine exists_congr fun w => and_congr_right fun hw => ?_
    rw [equal_append (helements w (List.mem_of_getElem? hw)) hy]
  · rw [if_neg hi, List.getElem?_eq_none (Nat.not_lt.mp hi), List.getElem?_singleton]
    by_cases hend : i = (h.elements l).length
    · simp [hend, equal_append hx hy]
    · simp [hend, show ¬ i ≤ (h.elements l).length by omega, Nat.sub_eq_zero_iff_le]

theorem position?_append_of_some (hi : h.position? l y = some i) :
    (h.append l x).position? l y = some i := by
  rw [position?_eq_some_iff] at hi ⊢
  obtain ⟨hequal, hleast⟩ := hi
  refine ⟨(equalAt_append_iff hl hx helements hy).mpr (.inl hequal), fun j hj => ?_⟩
  rcases (equalAt_append_iff hl hx helements hy).mp hj with hold | ⟨rfl, -⟩
  · exact hleast hold
  · exact Nat.le_of_lt (EqualAt.lt_size hequal)

theorem position?_append_of_none (hnone : h.position? l y = none) :
    (h.append l x).position? l y = if h.equal x y then some (h.size l) else none := by
  rw [position?_eq_none_iff] at hnone
  have hend (j : Nat) : (h.append l x).EqualAt l y j ↔ j = h.size l ∧ h.equal x y = true := by
    rw [equalAt_append_iff hl hx helements hy, or_iff_right (hnone j)]
  by_cases hxy : h.equal x y = true
  · rw [if_pos hxy, position?_eq_some_iff]
    exact ⟨(hend _).mpr ⟨rfl, hxy⟩, fun j hj => Nat.le_of_eq ((hend j).mp hj).1.symm⟩
  · rw [if_neg hxy, position?_eq_none_iff]
    exact fun j hj => hxy ((hend j).mp hj).2

end Append

/-- Nothing is equal to a value that is not equal to itself. -/
theorem position?_eq_none_of_ne_self (hx : h.equal x x = false) : h.position? l x = none := by
  rw [position?_eq_none_iff]
  rintro i ⟨w, -, hw⟩
  rw [equal_self_of_equal hw] at hx
  cases hx

/--
Appending a value to a list that neither the value nor the list's elements reach keeps the positions
of all values that were found and do not reach the list either. The value itself is then found at
the end, unless it was found before or is not equal to itself. In any heap a position is the least
at which an element is equal.
-/
theorem positions_after_append {h : Heap} {l : ListId} {x : Value} (hl : l.index < h.listCount)
    (hx : ¬ h.Reaches x l) (helements : ∀ w ∈ h.elements l, ¬ h.Reaches w l) :
    (h.append l x).size l = h.size l + 1 ∧
    (∀ i : Nat, h.indexOf l x = i → (h.append l x).indexOf l x = i) ∧
    (h.indexOf l x = -1 → h.equal x x = true → (h.append l x).indexOf l x = h.size l) ∧
    (h.equal x x = false → (h.append l x).indexOf l x = -1) ∧
    (h.equal x x = false ↔ h.HoldsNaN x) ∧
    (∀ y, ¬ h.Reaches y l → ∀ i : Nat, h.indexOf l y = i → (h.append l x).indexOf l y = i) ∧
    ∀ (g : Heap) (k : ListId) (y : Value),
      (∀ i : Nat, g.indexOf k y = i ↔ IsLeast {j | g.EqualAt k y j} i) ∧
      (g.indexOf k y = -1 ↔ g.position? k y = none) ∧
      (g.position? k y = none ↔ ∀ j, ¬ g.EqualAt k y j) := by
  have hkeep (y : Value) (hy : ¬ h.Reaches y l) (i : Nat) (hi : h.indexOf l y = i) :
      (h.append l x).indexOf l y = i := by
    rw [indexOf_eq_natCast_iff] at hi ⊢
    exact position?_append_of_some hl hx helements hy hi
  refine ⟨?_, hkeep x hx, fun hnone hself => ?_, fun hself => ?_, ?_, hkeep, fun g k y => ?_⟩
  · rw [size, elements_append hl, List.length_append, List.length_singleton, size]
  · rw [indexOf_eq_neg_one_iff] at hnone
    rw [indexOf_eq_natCast_iff, position?_append_of_none hl hx helements hx hnone, if_pos hself]
  · rw [indexOf_eq_neg_one_iff]
    exact position?_eq_none_of_ne_self ((equal_append hx hx).trans hself)
  · rw [← Bool.not_eq_true, equal_self_iff, not_not]
  · exact ⟨fun i => indexOf_eq_natCast_iff.trans position?_eq_some_iff, indexOf_eq_neg_one_iff,
      position?_eq_none_iff⟩

/-- Lists of one number each, and a list that holds one of them. -/
def singlesHeap : Heap :=
  ⟨#[[.number (.zero false)], [.number (.zero true)], [.number (.nan false)],
    [.text "a", .list ⟨0⟩]]⟩

/-- A list equal to one that is held, a list that is not equal to itself, and a null. -/
theorem positions_after_append_singles :
    singlesHeap.indexOf ⟨3⟩ (.list ⟨1⟩) = (1 : Nat) ∧
      (singlesHeap.append ⟨3⟩ (.list ⟨1⟩)).indexOf ⟨3⟩ (.list ⟨1⟩) = (1 : Nat) ∧
    singlesHeap.equal (.list ⟨2⟩) (.list ⟨2⟩) = false ∧
      (singlesHeap.append ⟨3⟩ (.list ⟨2⟩)).indexOf ⟨3⟩ (.list ⟨2⟩) = -1 ∧
    singlesHeap.indexOf ⟨3⟩ .null = -1 ∧
      (singlesHeap.append ⟨3⟩ .null).indexOf ⟨3⟩ .null = (2 : Nat) := by
  have hlist {m : Nat} (hm : m < 3) : ¬ singlesHeap.Reaches (.list ⟨m⟩) ⟨3⟩ := fun hreach =>
    Nat.not_lt.mpr (index_le_of_reaches rfl hreach _ rfl) hm
  have helements : ∀ w ∈ singlesHeap.elements ⟨3⟩, ¬ singlesHeap.Reaches w ⟨3⟩ := fun w hw =>
    (acyclic_of_holdsOlder rfl _).element_not_reaches hw _ (List.mem_singleton.mpr rfl)
  have hfound : singlesHeap.indexOf ⟨3⟩ (.list ⟨1⟩) = (1 : Nat) := by decide +kernel
  have hself : singlesHeap.equal (.list ⟨2⟩) (.list ⟨2⟩) = false := by decide +kernel
  have hnone : singlesHeap.indexOf ⟨3⟩ .null = -1 := by decide +kernel
  obtain ⟨-, hkept, -⟩ := positions_after_append (by decide) (hlist (m := 1) (by decide)) helements
  obtain ⟨-, -, -, hnan, -⟩ :=
    positions_after_append (by decide) (hlist (m := 2) (by decide)) helements
  obtain ⟨-, -, hend, -⟩ :=
    positions_after_append (h := singlesHeap) (l := ⟨3⟩) (x := .null) (by decide)
      (fun hreach => by cases hreach) helements
  exact ⟨hfound, hkept 1 hfound, hself, hnan hself, hnone, hend hnone rfl⟩

end PageScript.Heap
