import Mathlib.Data.List.Forall2
import Mathlib.Data.List.TakeWhile
import Mathlib.Logic.Relation

/-!
# Facts about lists

What is used of lists in several places and is not about what they hold: lists related element by
element, lists that extend one another, the front of a list up to a mark or as far as a test holds.
-/

namespace PageScript

section Related

variable {α β γ : Type} {R : α → β → Prop} {xs : List α} {ys : List β}

theorem forall₂_getElem? (h : List.Forall₂ R xs ys) (i : Nat) : Option.Rel R xs[i]? ys[i]? := by
  induction h generalizing i with
  | nil => exact .none
  | cons hr _ ih =>
    cases i with
    | zero => exact .some hr
    | succ i => exact ih i

theorem forall₂_set (h : List.Forall₂ R xs ys) {x : α} {y : β} (hr : R x y) (i : Nat) :
    List.Forall₂ R (xs.set i x) (ys.set i y) := by
  induction h generalizing i with
  | nil => exact .nil
  | cons hab hrest ih =>
    cases i with
    | zero => exact .cons hr hrest
    | succ i => exact .cons hab (ih i)

theorem forall₂_imp_of_mem {S : α → β → Prop} (hR : List.Forall₂ R xs ys)
    (himp : ∀ x ∈ xs, ∀ y ∈ ys, R x y → S x y) : List.Forall₂ S xs ys := by
  rw [List.forall₂_iff_zip] at hR ⊢
  refine ⟨hR.1, fun {x y} hxy => ?_⟩
  obtain ⟨hx, hy⟩ := List.of_mem_zip hxy
  exact himp x hx y hy (hR.2 hxy)

theorem forall₂_comp {S : β → γ → Prop} {zs : List γ} (hR : List.Forall₂ R xs ys)
    (hS : List.Forall₂ S ys zs) : List.Forall₂ (Relation.Comp R S) xs zs := by
  induction hR generalizing zs with
  | nil =>
    cases hS
    exact .nil
  | cons hxy _ ih =>
    cases hS with
    | cons hyz hS => exact .cons ⟨_, hxy, hyz⟩ (ih hS)

theorem forall₂_of_mapM {f : α → Option β} (h : xs.mapM f = some ys) :
    List.Forall₂ (fun x y => f x = some y) xs ys := by
  induction xs generalizing ys with
  | nil =>
    rw [List.mapM_nil] at h
    cases h
    exact .nil
  | cons x xs ih =>
    rw [List.mapM_cons] at h
    obtain ⟨y, hy, h⟩ := Option.bind_eq_some_iff.mp h
    obtain ⟨rest, hrest, h⟩ := Option.bind_eq_some_iff.mp h
    cases h
    exact .cons hy (ih hrest)

theorem exists_mapM_eq_some {f : α → Option β} (h : ∀ x ∈ xs, ∃ y, f x = some y) :
    ∃ ys, xs.mapM f = some ys := by
  induction xs with
  | nil => exact ⟨[], rfl⟩
  | cons x xs ih =>
    obtain ⟨⟨y, hy⟩, hrest⟩ := List.forall_mem_cons.mp h
    obtain ⟨ys, hys⟩ := ih hrest
    refine ⟨y :: ys, ?_⟩
    rw [List.mapM_cons, hy, hys]
    rfl

theorem map_eq_of_forall₂ {f : α → γ} {g : β → γ} (hR : List.Forall₂ R xs ys)
    (hfg : ∀ x ∈ xs, ∀ y ∈ ys, R x y → f x = g y) : xs.map f = ys.map g := by
  rw [← List.forall₂_eq_eq_eq, List.forall₂_map_left_iff, List.forall₂_map_right_iff]
  exact forall₂_imp_of_mem hR hfg

end Related

variable {α : Type}

theorem getElem?_of_extends {xs ys : List α} (h : xs <+: ys) {x : Nat} {a : α}
    (hx : xs[x]? = some a) : ys[x]? = some a := by
  obtain ⟨hlt, rfl⟩ := List.getElem?_eq_some_iff.mp hx
  exact List.prefix_iff_getElem?.mp h x hlt

theorem head?_mono {xs ys : List α} (h : xs <+: ys) {a : α} (ha : a ∈ xs.head?) :
    a ∈ ys.head? := by
  obtain ⟨zs, rfl⟩ := h
  obtain ⟨xs, rfl⟩ := List.head?_eq_some_iff.mp ha
  rfl

/-- The longest run at the start in which a test holds, and what follows it. -/
theorem exists_span (q : α → Bool) (xs : List α) :
    ∃ front rest, xs = front ++ rest ∧ (∀ a ∈ front, q a = true) ∧
      ∀ a ∈ rest.head?, q a = false := by
  refine ⟨xs.takeWhile q, xs.dropWhile q, List.takeWhile_append_dropWhile.symm, ?_, ?_⟩
  · exact fun a ha => List.mem_takeWhile_imp ha
  · intro a ha
    have hnot := List.head?_dropWhile_not q xs
    rw [show (xs.dropWhile q).head? = some a from ha] at hnot
    simpa using hnot

/-- Lists without a mark can be told apart from what is behind the mark. -/
theorem append_mark_inj {mark : α} {a b s t : List α} (ha : mark ∉ a) (hb : mark ∉ b) :
    a ++ mark :: s = b ++ mark :: t ↔ a = b ∧ s = t := by
  induction a generalizing b with
  | nil =>
    cases b with
    | nil => simp
    | cons d b =>
      have hd : ¬ mark = d := fun e => hb (e ▸ List.mem_cons_self)
      simp [hd]
  | cons c a ih =>
    cases b with
    | nil =>
      have hc : ¬ c = mark := fun e => ha (e ▸ List.mem_cons_self)
      simp [hc]
    | cons d b =>
      have hrest := ih (fun h => ha (.tail c h)) fun h => hb (.tail d h)
      rw [List.cons_append, List.cons_append, List.cons.injEq, hrest, List.cons.injEq, and_assoc]

/-- A test that is stricter somewhere in a list holds less often there. -/
theorem countP_lt_of_imp {p q : α → Bool} {xs : List α} {a : α}
    (imp : ∀ x, p x = true → q x = true) (ha : a ∈ xs) (hq : q a = true) (hp : p a = false) :
    xs.countP p < xs.countP q := by
  have hsplit := List.countP_eq_countP_filter_add xs q p
  rw [List.countP_filter, List.countP_filter] at hsplit
  have hboth : xs.countP (fun x => q x && p x) = xs.countP p := by
    refine List.countP_congr fun x _ => ?_
    rw [Bool.and_eq_true]
    exact ⟨And.right, fun hx => ⟨imp x hx, hx⟩⟩
  have hpos : 0 < xs.countP (fun x => q x && !p x) :=
    List.countP_pos_iff.mpr ⟨a, ha, by rw [hq, hp]; rfl⟩
  omega

end PageScript
