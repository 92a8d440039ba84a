import Mathlib.Data.List.ProdSigma
import PageScript.Heap.Equality
import PageScript.Heap.Tree
import PageScript.Proofs.Lists
import PageScript.Proofs.Walk

/-!
# Equality of lists is bisimilarity

A bisimulation relates lists whose elements agree place by place, where two lists agree if
they are related again. The walk that compares two lists knows only the pairs on its own path
and takes those for equal. What it decides at given marks is therefore bisimilarity up to the
marked pairs; without marks that is bisimilarity. Lists may be shared and may contain
themselves in any way, and no handle is assumed to belong to the heap.
-/

namespace PageScript

/-- Values that agree if the lists that `R` relates do. -/
inductive Value.Related (R : ListId → ListId → Prop) : Value → Value → Prop where
  /-- Numbers at one place of the line. Both zeros are at the same, NaN is at none. -/
  | number {x y : Binary64} {place : Int} (hx : x.rank? = some place) (hy : y.rank? = some place) :
    Related R (.number x) (.number y)
  | text (s : String) : Related R (.text s) (.text s)
  | boolean (b : Bool) : Related R (.boolean b) (.boolean b)
  | list {a b : ListId} (hr : R a b) : Related R (.list a) (.list b)
  | element (id : ElementId) : Related R (.element id) (.element id)
  | null : Related R .null .null

namespace Value

variable {R S : ListId → ListId → Prop}

theorem Related.mono (hrs : ∀ a b, R a b → S a b) {v w : Value} (hv : Related R v w) :
    Related S v w := by
  cases hv with
  | number hx hy => exact .number hx hy
  | text s => exact .text s
  | boolean b => exact .boolean b
  | list hr => exact .list (hrs _ _ hr)
  | element id => exact .element id
  | null => exact .null

theorem related_number_iff {x y : Binary64} :
    Related R (.number x) (.number y) ↔ x.equal y = true := by
  constructor
  · intro hr
    cases hr with
    | number hx hy => simp [Binary.equal, hx, hy]
  · intro he
    unfold Binary.equal at he
    split at he
    · rename_i hx hy
      rw [eq_of_beq he] at hx
      exact .number hx hy
    · cases he

theorem related_text_iff {s t : String} : Related R (.text s) (.text t) ↔ s = t := by
  constructor
  · intro hr
    cases hr
    rfl
  · rintro rfl
    exact .text s

theorem related_boolean_iff {b c : Bool} : Related R (.boolean b) (.boolean c) ↔ b = c := by
  constructor
  · intro hr
    cases hr
    rfl
  · rintro rfl
    exact .boolean b

theorem related_element_iff {i j : ElementId} : Related R (.element i) (.element j) ↔ i = j := by
  constructor
  · intro hr
    cases hr
    rfl
  · rintro rfl
    exact .element i

theorem related_list_iff {a b : ListId} : Related R (.list a) (.list b) ↔ R a b := by
  constructor
  · intro hr
    cases hr with
    | list hr => exact hr
  · exact .list

/-- A number is equal to itself unless it is NaN. -/
theorem related_number_self_iff {x : Binary64} :
    Related R (.number x) (.number x) ↔ x.isNaN = false := by
  rw [related_number_iff]
  cases x <;> simp [Binary.equal, Binary.rank?, Binary.isNaN]

theorem related_zeros (s t : Bool) :
    Related R (.number (Binary.zero s)) (.number (Binary.zero t)) :=
  related_number_iff.mpr (by cases s <;> cases t <;> decide)

end Value

namespace Marks

/-- The pairs of lists that are being compared. -/
def Compared (marks : Marks) (a b : ListId) : Prop := .comparing a b ∈ marks

theorem compared_nil : Compared [] = fun _ _ => False := by
  funext a b
  simp [Compared]

theorem compared_cons (marks : Marks) (a b : ListId) :
    Compared (.comparing a b :: marks) = fun x y => (x = a ∧ y = b) ∨ Compared marks x y := by
  funext x y
  simp [Compared]

end Marks

namespace Heap

open Marks (Compared compared_nil compared_cons)

/-- Related lists have the same length and elements that agree place by place. -/
def IsBisimulation (h : Heap) (R : ListId → ListId → Prop) : Prop :=
  ∀ a b, R a b → List.Forall₂ (Value.Related R) (h.elements a) (h.elements b)

def Bisimilar (h : Heap) (a b : ListId) : Prop := ∃ R, h.IsBisimulation R ∧ R a b

/-- A bisimulation in which also the lists that `M` relates count as related. -/
def IsBisimulationUpTo (h : Heap) (M R : ListId → ListId → Prop) : Prop :=
  ∀ a b, R a b →
    List.Forall₂ (Value.Related fun x y => R x y ∨ M x y) (h.elements a) (h.elements b)

def BisimilarUpTo (h : Heap) (M : ListId → ListId → Prop) (a b : ListId) : Prop :=
  ∃ R, h.IsBisimulationUpTo M R ∧ R a b

/-- Values that agree, given that the lists that `M` relates do. -/
def EqualUpTo (h : Heap) (M : ListId → ListId → Prop) (v w : Value) : Prop :=
  Value.Related (fun a b => h.BisimilarUpTo M a b ∨ M a b) v w

variable {h : Heap} {M N : ListId → ListId → Prop} {a b : ListId} {v w : Value}

theorem Bisimilar.elements (hab : h.Bisimilar a b) :
    List.Forall₂ (Value.Related h.Bisimilar) (h.elements a) (h.elements b) := by
  obtain ⟨R, hR, hr⟩ := hab
  exact (hR a b hr).imp fun _ _ => Value.Related.mono fun _ _ hxy => ⟨R, hR, hxy⟩

theorem bisimilarUpTo_empty_iff :
    h.BisimilarUpTo (fun _ _ => False) a b ↔ h.Bisimilar a b := by
  simp only [BisimilarUpTo, IsBisimulationUpTo, Bisimilar, IsBisimulation, or_false]

theorem EqualUpTo.mono (hmn : ∀ a b, M a b → N a b) (hv : h.EqualUpTo M v w) :
    h.EqualUpTo N v w := by
  refine Value.Related.mono ?_ hv
  rintro a b (⟨R, hR, hab⟩ | hab)
  · refine .inl ⟨R, ?_, hab⟩
    intro x y hxy
    exact (hR x y hxy).imp fun _ _ => Value.Related.mono fun _ _ => Or.imp_right (hmn _ _)
  · exact .inr (hmn a b hab)

theorem BisimilarUpTo.elements (hab : h.BisimilarUpTo M a b) :
    List.Forall₂ (h.EqualUpTo M) (h.elements a) (h.elements b) := by
  obtain ⟨R, hR, hr⟩ := hab
  refine (hR a b hr).imp fun _ _ => Value.Related.mono ?_
  exact fun x y => Or.imp_left fun hxy => ⟨R, hR, hxy⟩

/-- A pair may be assumed while its own elements are compared. -/
theorem bisimilarUpTo_of_elements
    (he : List.Forall₂ (h.EqualUpTo fun x y => (x = a ∧ y = b) ∨ M x y)
      (h.elements a) (h.elements b)) : h.BisimilarUpTo M a b := by
  -- What is bisimilar under the assumption, and the pair itself, need no assumption on the pair.
  refine ⟨fun x y => h.BisimilarUpTo (fun x y => (x = a ∧ y = b) ∨ M x y) x y ∨ (x = a ∧ y = b),
    ?_, .inr ⟨rfl, rfl⟩⟩
  rintro x y (hxy | ⟨rfl, rfl⟩)
  · refine hxy.elements.imp fun _ _ => Value.Related.mono ?_
    exact fun _ _ => or_assoc.mpr
  · refine he.imp fun _ _ => Value.Related.mono ?_
    exact fun _ _ => or_assoc.mpr

theorem bisimilarUpTo_iff_elements :
    h.BisimilarUpTo M a b ↔
      List.Forall₂ (h.EqualUpTo fun x y => (x = a ∧ y = b) ∨ M x y)
        (h.elements a) (h.elements b) :=
  ⟨fun hab => hab.elements.imp fun _ _ => EqualUpTo.mono fun _ _ => Or.inr,
    bisimilarUpTo_of_elements⟩

/-- How many pairs of lists of the heap are not being compared. -/
def unmarkedPairs (h : Heap) (marks : Marks) : Nat :=
  (List.range h.listCount ×ˢ List.range h.listCount).countP fun p => .comparing ⟨p.1⟩ ⟨p.2⟩ ∉ marks

theorem unmarkedPairs_le (h : Heap) (marks : Marks) :
    h.unmarkedPairs marks ≤ h.listCount * h.listCount := by
  have hle := List.countP_le_length
    (p := fun p : Nat × Nat => decide (.comparing ⟨p.1⟩ ⟨p.2⟩ ∉ marks))
    (l := List.range h.listCount ×ˢ List.range h.listCount)
  rwa [List.length_product, List.length_range] at hle

theorem unmarkedPairs_cons_lt {marks : Marks} (ha : a.index < h.listCount)
    (hb : b.index < h.listCount) (hm : .comparing a b ∉ marks) :
    h.unmarkedPairs (.comparing a b :: marks) < h.unmarkedPairs marks := by
  apply countP_lt_of_imp (a := (a.index, b.index))
  · intro p hp
    simp only [List.mem_cons, not_or, decide_eq_true_eq] at hp ⊢
    exact hp.2
  · exact List.mem_product.mpr ⟨List.mem_range.mpr ha, List.mem_range.mpr hb⟩
  · simpa using hm
  · simp

/-- Values that are not both lists are compared at once, at any depth and marks. -/
theorem equalWalk_leaf_decides (h : Heap) (R : ListId → ListId → Prop) (depth : Nat)
    (marks : Marks) {v w : Value} (hl : ∀ a b, v = .list a → w = .list b → False) :
    (h.equalWalk depth v w).Decides marks (Value.Related R v w) := by
  fun_cases equalWalk h depth v w with
  | case1 x y => exact Walk.decides_pure marks Value.related_number_iff.symm
  | case2 s t => exact Walk.decides_pure marks (by rw [Value.related_text_iff, beq_iff_eq])
  | case3 b c => exact Walk.decides_pure marks (by rw [Value.related_boolean_iff, beq_iff_eq])
  | case4 i j => exact Walk.decides_pure marks (by rw [Value.related_element_iff, beq_iff_eq])
  | case5 => exact Walk.decides_pure marks ⟨fun _ => .null, fun _ => rfl⟩
  | case6 a b => exact (hl a b rfl rfl).elim
  | case7 depth a b => exact (hl a b rfl rfl).elim
  | case8 _ _ _ hnumber htext hboolean helement hnull =>
    refine Walk.decides_pure marks ⟨nofun, ?_⟩
    intro hr
    cases hr with
    | number hx hy => exact (hnumber _ _ rfl rfl).elim
    | text s => exact (htext _ _ rfl rfl).elim
    | boolean b => exact (hboolean _ _ rfl rfl).elim
    | list hab => exact (hl _ _ rfl rfl).elim
    | element id => exact (helement _ _ rfl rfl).elim
    | null => exact (hnull rfl rfl).elim

/-- The lengths are compared first; after that the elements decide. -/
theorem elements_decides {walk : Value → Value → Walk Bool} {marks : Marks}
    {p : Value → Value → Prop} {vs ws : List Value}
    (hw : ∀ v ∈ vs, ∀ w ∈ ws, (walk v w).Decides marks (p v w)) :
    Walk.Decides (if vs.length = ws.length then Walk.forall₂ walk vs ws else pure false) marks
      (List.Forall₂ p vs ws) := by
  by_cases hlen : vs.length = ws.length
  · rw [if_pos hlen]
    exact Walk.decides_forall₂ hw
  · rw [if_neg hlen]
    exact Walk.decides_pure marks ⟨nofun, fun hp => absurd hp.length_eq hlen⟩

/--
At a depth above the number of pairs that are not marked, the walk ends, gives the marks back
and decides equality up to the marked pairs.
-/
theorem equalWalk_decides (h : Heap) {depth : Nat} {marks : Marks} (v w : Value)
    (hd : h.unmarkedPairs marks < depth) :
    (h.equalWalk depth v w).Decides marks (h.EqualUpTo (Compared marks) v w) := by
  induction depth generalizing marks v w with
  | zero => omega
  | succ depth ih =>
    by_cases hl : ∃ a b, v = .list a ∧ w = .list b
    · obtain ⟨a, b, rfl, rfl⟩ := hl
      rw [equalWalk, EqualUpTo, Value.related_list_iff]
      by_cases hm : .comparing a b ∈ marks
      · exact ⟨true, Walk.returns_once_again hm true _, by simp [Compared, hm]⟩
      · -- Only lists of the heap have elements, so each comparison of elements has one pair less.
        have helements : ∀ v ∈ h.elements a, ∀ w ∈ h.elements b,
            (h.equalWalk depth v w).Decides (.comparing a b :: marks)
              (h.EqualUpTo (Compared (.comparing a b :: marks)) v w) := by
          intro v hv w hw
          apply ih
          have hlt := unmarkedPairs_cons_lt (h.lt_listCount_of_mem hv) (h.lt_listCount_of_mem hw) hm
          omega
        obtain ⟨answer, hanswer, hiff⟩ := elements_decides helements
        refine ⟨answer, hanswer.once hm true, ?_⟩
        rw [hiff, compared_cons, ← bisimilarUpTo_iff_elements]
        exact ⟨Or.inl, fun hr => hr.resolve_right hm⟩
    · exact equalWalk_leaf_decides h _ _ marks fun a b hv hw => hl ⟨a, b, hv, hw⟩

/-- The bound that `Heap.equal` uses is enough at any marks. -/
theorem equalWalk_decides_of_lt (h : Heap) {depth : Nat} (marks : Marks) (v w : Value)
    (hd : h.listCount * h.listCount < depth) :
    (h.equalWalk depth v w).Decides marks (h.EqualUpTo (Compared marks) v w) :=
  h.equalWalk_decides v w (Nat.lt_of_le_of_lt (h.unmarkedPairs_le marks) hd)

/-- Without marks, nothing is assumed. -/
theorem equalUpTo_unmarked_iff : h.EqualUpTo (Compared []) v w ↔ Value.Related h.Bisimilar v w := by
  have hR : (fun a b => h.BisimilarUpTo (Compared []) a b ∨ Compared [] a b) = h.Bisimilar := by
    funext a b
    rw [compared_nil, or_false, bisimilarUpTo_empty_iff]
  rw [EqualUpTo, hR]

theorem equal_returns (h : Heap) (v w : Value) :
    (h.equalWalk (h.listCount * h.listCount + 1) v w).Returns [] (h.equal v w) := by
  obtain ⟨b, hb, -⟩ := h.equalWalk_decides_of_lt [] v w (Nat.lt_succ_self _)
  have heq : h.equal v w = b := by
    rw [equal, hb.answer?, Option.getD_some]
  rwa [heq]

/-- Values are equal exactly if they agree up to bisimilarity of lists. -/
theorem equal_iff_related : h.equal v w = true ↔ Value.Related h.Bisimilar v w := by
  obtain ⟨b, hb, hiff⟩ := h.equalWalk_decides_of_lt [] v w (Nat.lt_succ_self _)
  rw [(h.equal_returns v w).unique hb, hiff, equalUpTo_unmarked_iff]

/-- More depth than the bound changes nothing. -/
theorem equalWalk_returns (h : Heap) (v w : Value) {depth : Nat}
    (hd : h.listCount * h.listCount < depth) :
    (h.equalWalk depth v w).Returns [] (h.equal v w) := by
  obtain ⟨b, hb, hiff⟩ := h.equalWalk_decides_of_lt [] v w hd
  have heq : b = h.equal v w := by
    rw [Bool.eq_iff_iff, hiff, equalUpTo_unmarked_iff, equal_iff_related]
  rwa [heq] at hb

/--
The comparison of two lists ends, whatever the lists contain, and its answer is yes exactly if
they are bisimilar. For numbers a bisimulation asks numerical equality: NaN is not equal to
itself, and zeros are equal whatever their signs.
-/
theorem equal_list_iff_bisimilar (h : Heap) (a b : ListId) :
    (∀ depth, h.listCount * h.listCount < depth →
      (h.equalWalk depth (.list a) (.list b)).run [] = some (h.equal (.list a) (.list b), [])) ∧
    (h.equal (.list a) (.list b) = true ↔ h.Bisimilar a b) ∧
    (∀ x : Binary64, Value.Related h.Bisimilar (.number x) (.number x) ↔ x.isNaN = false) ∧
    ∀ s t : Bool, Value.Related h.Bisimilar (.number (.zero s)) (.number (.zero t)) := by
  refine ⟨?_, ?_, fun x => Value.related_number_self_iff, Value.related_zeros⟩
  · intro depth hd
    exact h.equalWalk_returns (.list a) (.list b) hd
  · rw [equal_iff_related, Value.related_list_iff]

/-- A list that holds itself, and two lists that hold each other, with the same text in front. -/
def windingHeap : Heap :=
  ⟨#[[.text "a", .list ⟨0⟩], [.text "a", .list ⟨2⟩], [.text "a", .list ⟨1⟩]]⟩

/-- Going round once or twice makes no difference. -/
theorem equal_list_iff_bisimilar_winding :
    windingHeap.listCount * windingHeap.listCount < 10 ∧
      (windingHeap.equalWalk 10 (.list ⟨0⟩) (.list ⟨1⟩)).run [] = some (true, []) ∧
      windingHeap.Bisimilar ⟨0⟩ ⟨1⟩ := by
  have hequal : windingHeap.equal (.list ⟨0⟩) (.list ⟨1⟩) = true := rfl
  obtain ⟨hends, hiff, -⟩ := equal_list_iff_bisimilar windingHeap ⟨0⟩ ⟨1⟩
  refine ⟨by decide, ?_, hiff.mp hequal⟩
  rw [hends 10 (by decide), hequal]

end Heap

end PageScript
