import Mathlib.Data.List.Forall2
import PageScript.Heap.Walk

/-!
# Walks that give back their marks

`Walk.Returns` says that a walk ends and leaves exactly the marks that it found. Entering a
mark, going through a list and comparing two lists all keep to it, so a walk that is built
from them does. Nothing is assumed about the marks on entry.
-/

namespace PageScript.Walk

variable {α β : Type}

/-- The walk ends with an answer, and the marks are as they were. -/
def Returns (walk : Walk α) (marks : Marks) (a : α) : Prop := walk.run marks = some (a, marks)

theorem returns_pure (marks : Marks) (a : α) : Returns (pure a) marks a := rfl

theorem Returns.bind {walk : Walk α} {next : α → Walk β} {marks : Marks} {a : α} {b : β}
    (ha : walk.Returns marks a) (hb : (next a).Returns marks b) :
    Returns (walk >>= next) marks b := by
  unfold Returns at ha hb ⊢
  rw [StateT.run_bind, ha]
  exact hb

theorem Returns.map {walk : Walk α} {marks : Marks} {a : α} (f : α → β)
    (ha : walk.Returns marks a) : Returns (do return f (← walk)) marks (f a) :=
  ha.bind (returns_pure marks (f a))

theorem Returns.unique {walk : Walk α} {marks : Marks} {a b : α} (ha : walk.Returns marks a)
    (hb : walk.Returns marks b) : a = b := by
  unfold Returns at ha hb
  rw [ha] at hb
  exact congrArg Prod.fst (Option.some.inj hb)

theorem Returns.answer? {walk : Walk α} {a : α} (ha : walk.Returns [] a) :
    walk.answer? = some a := by
  unfold Returns at ha
  rw [Walk.answer?, ha]
  rfl

/-- What is marked already is not entered, and its mark stays. -/
theorem returns_once_again {mark : Mark} {marks : Marks} (hm : mark ∈ marks) (again : α)
    (walk : Walk α) : Returns (once mark again walk) marks again := by
  simp [Returns, once, hm]

/-- The mark is set for the walk inside only. -/
theorem Returns.once {mark : Mark} {marks : Marks} {walk : Walk α} {a : α} (hm : mark ∉ marks)
    (ha : walk.Returns (mark :: marks) a) (again : α) :
    Returns (Walk.once mark again walk) marks a := by
  unfold Returns at ha ⊢
  simp [Walk.once, hm, ha]

/-- The walk ends, the marks are as they were, and the answer is yes exactly if `p` holds. -/
def Decides (walk : Walk Bool) (marks : Marks) (p : Prop) : Prop :=
  ∃ b, walk.Returns marks b ∧ (b = true ↔ p)

theorem decides_pure (marks : Marks) {b : Bool} {p : Prop} (hb : b = true ↔ p) :
    Decides (pure b) marks p :=
  ⟨b, returns_pure marks b, hb⟩

/--
Comparing two lists stops at the first difference, which leaves no mark behind: every
comparison up to there gave the marks back.
-/
theorem decides_forall₂ {walk : α → β → Walk Bool} {p : α → β → Prop} {marks : Marks}
    {xs : List α} {ys : List β} (hw : ∀ x ∈ xs, ∀ y ∈ ys, (walk x y).Decides marks (p x y)) :
    Decides (forall₂ walk xs ys) marks (List.Forall₂ p xs ys) := by
  induction xs generalizing ys with
  | nil =>
    cases ys with
    | nil => exact decides_pure marks (by simp)
    | cons y ys => exact decides_pure marks (by simp)
  | cons x xs ih =>
    cases ys with
    | nil => exact decides_pure marks (by simp)
    | cons y ys =>
      obtain ⟨b, hb, hp⟩ := hw x List.mem_cons_self y List.mem_cons_self
      rw [List.forall₂_cons, ← hp]
      cases b with
      | false => exact ⟨false, hb.bind (returns_pure marks false), by simp⟩
      | true =>
        obtain ⟨c, hc, hq⟩ := ih fun x' hx y' hy =>
          hw x' (List.mem_cons_of_mem x hx) y' (List.mem_cons_of_mem y hy)
        exact ⟨c, hb.bind hc, by simpa using hq⟩

end PageScript.Walk
