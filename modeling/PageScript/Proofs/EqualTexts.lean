import PageScript.Page.Memory
import PageScript.Proofs.Acyclic
import PageScript.Proofs.Bisimulation
import PageScript.Proofs.Texts

/-!
# Equal values are written alike

Equality walks through two values at once and marks pairs of lists; writing walks through one and
marks single lists. Where neither value has a cycle, no walk meets a list that is under way, so both
follow the trees of the values, and these have leaves of equal texts at the same places. How lists
are shared does not matter: equal values may share them differently.
-/

namespace PageScript

namespace Binary

variable {F : BinaryFormat}

/-- A signed magnitude has one sign unless it is zero. -/
theorem signed_inj {s t : Bool} {m n : Nat} (heq : signed s m = signed t n) :
    m = n ∧ (m = 0 ∨ s = t) := by
  simp only [signed] at heq
  cases s <;> cases t <;> simp at heq ⊢ <;> omega

/-- Numbers at one place of the line have one text, zeros of both signs included. -/
theorem text_eq_of_rank? {x y : Binary F} {place : Int} (hx : x.rank? = some place)
    (hy : y.rank? = some place) : x.text = y.text := by
  have hlimit := F.limit_pos
  rw [← hy] at hx
  cases x with
  | nan =>
    rw [hy] at hx
    cases hx
  | infinite s =>
    cases y with
    | nan => cases hx
    | infinite t =>
      obtain ⟨-, hzero | rfl⟩ := signed_inj (Option.some.inj hx)
      · omega
      · rfl
    | finite t n hn =>
      have heq := (signed_inj (Option.some.inj hx)).1
      exact absurd hn.2 (by omega)
  | finite s m hm =>
    cases y with
    | nan => cases hx
    | infinite t =>
      have heq := (signed_inj (Option.some.inj hx)).1
      exact absurd hm.2 (by omega)
    | finite t n hn =>
      obtain ⟨rfl, rfl | rfl⟩ := signed_inj (Option.some.inj hx)
      · simp [text, NumberStyle.write, NumberStyle.plain]
      · rfl

end Binary

namespace Heap

variable {h : Heap} {a b : ListId} {v w : Value}

theorem Acyclic.placeText_list (hl : h.Acyclic (.list a)) :
    (h.unfold (.list a)).placeText =
      ",".intercalate ((h.elements a).map fun v => (h.unfold v).placeText) := by
  rw [hl.unfold_list, Tree.placeText_items, List.map_map]
  rfl

/-- As elements of a list, values without cycles that agree are written alike. -/
theorem Acyclic.placeText_eq (hv : h.Acyclic v) :
    ∀ w, h.Acyclic w → Value.Related h.Bisimilar v w →
      (h.unfold v).placeText = (h.unfold w).placeText := by
  refine hv.induction (motive := fun v => ∀ w, h.Acyclic w → Value.Related h.Bisimilar v w →
    (h.unfold v).placeText = (h.unfold w).placeText) ?_ ?_
  · intro v hleaf w _ hr
    cases hr with
    | number hx hy =>
      simp [unfold, unfoldBelow, Tree.placeText, Tree.leafTexts, Binary.text_eq_of_rank? hx hy]
    | list => exact absurd rfl (hleaf _)
    | _ => rfl
  · intro a ha ih w hw hr
    cases hr with
    | @list _ b hab =>
      rw [ha.placeText_list, hw.placeText_list]
      congr 1
      refine map_eq_of_forall₂ hab.elements fun x hx y hy hxy => ?_
      exact ih x hx y (hw.element hy) hxy

/-- By itself only a null is written in another way, and a null agrees with nulls only. -/
theorem Acyclic.display_eq (hv : h.Acyclic v) (hw : h.Acyclic w)
    (hr : Value.Related h.Bisimilar v w) : h.display v = h.display w := by
  have hplace := hv.placeText_eq w hw hr
  by_cases hnull : v = .null
  · subst hnull
    cases hr
    rfl
  · have hnull' : w ≠ .null := by
      rintro rfl
      cases hr
      exact hnull rfl
    rw [display_eq_displayText, display_eq_displayText, unfold, unfold,
      Tree.displayText_of_ne_null (unfoldBelow_ne_null hnull),
      Tree.displayText_of_ne_null (unfoldBelow_ne_null hnull')]
    exact hplace

theorem displayWalk_returns (h : Heap) (v : Value) {depth : Nat} (hd : h.listCount < depth) :
    (h.displayWalk depth v).Returns [] (h.display v) := by
  rw [display_eq_displayText]
  exact h.displayWalk_returns_tree v (Nat.lt_of_le_of_lt (h.unopened_le _) hd)

/--
Writing two equal values, from which no cycle of lists can be reached, ends with the same text,
however their lists are shared and whatever the signs of their zeros. So no page tells which of
them is shown, and a page in memory gets that text on a line.
-/
theorem equal_values_written_alike (h : Heap) {v w : Value} (hv : h.Acyclic v) (hw : h.Acyclic w)
    (heq : h.equal v w = true) :
    (∀ depth, h.listCount < depth →
      (h.displayWalk depth v).run [] = some (h.display v, []) ∧
      (h.displayWalk depth w).run [] = some (h.display v, [])) ∧
    h.display v = h.display w ∧
    (∀ {π : Type → Type} [Page π] {α : Type} (page : π α),
      Page.showValue h v page = Page.showValue h w page) ∧
    ∀ {α : Type} (page : MemoryPage α),
      Page.showValue h w page =
        .ok () { page with written := page.written ++ (h.display v ++ "\n") } := by
  have htext : h.display v = h.display w := hv.display_eq hw (equal_iff_related.mp heq)
  refine ⟨fun depth hd => ⟨h.displayWalk_returns v hd, ?_⟩, htext, ?_, ?_⟩
  · rw [htext]
    exact h.displayWalk_returns w hd
  · intro π _ α page
    rw [Page.showValue, Page.showValue, htext]
  · intro α page
    rw [htext]
    rfl

/-- A list with one list twice in it, and one with two lists that differ in the sign of a zero. -/
def twiceHeap : Heap :=
  ⟨#[[.number (.zero false), .null], [.list ⟨0⟩, .list ⟨0⟩], [.number (.zero true), .null],
    [.list ⟨2⟩, .list ⟨0⟩]]⟩

theorem equal_values_written_alike_twice :
    twiceHeap.Acyclic (.list ⟨1⟩) ∧ twiceHeap.Acyclic (.list ⟨3⟩) ∧
      twiceHeap.equal (.list ⟨1⟩) (.list ⟨3⟩) = true ∧
      twiceHeap.display (.list ⟨1⟩) = twiceHeap.display (.list ⟨3⟩) :=
  ⟨acyclic_of_holdsOlder rfl _, acyclic_of_holdsOlder rfl _, rfl,
    (equal_values_written_alike twiceHeap (acyclic_of_holdsOlder rfl _)
      (acyclic_of_holdsOlder rfl _) rfl).2.1⟩

end Heap

end PageScript
