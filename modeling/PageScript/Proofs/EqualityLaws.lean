import PageScript.Proofs.Bisimulation
import PageScript.Proofs.Unfolding

/-!
# Laws of equality

Equality of values is symmetric and transitive. A value is equal to itself unless it is NaN or holds
one at some depth.

Equality reads the heap, but only the lists that the two values reach, and of their handles only
which are the same. So it has one answer in two heaps if the reachable part of the first is found in
the second, possibly under other handles.
-/

namespace PageScript

namespace Value

variable {R S : ListId → ListId → Prop} {u v w : Value}

theorem Related.symm (hv : Related R v w) : Related (flip R) w v := by
  cases hv with
  | number hx hy => exact .number hy hx
  | text s => exact .text s
  | boolean b => exact .boolean b
  | list hr => exact .list hr
  | element id => exact .element id
  | null => exact .null

theorem Related.comp (huv : Related R u v) (hvw : Related S v w) :
    Related (Relation.Comp R S) u w := by
  cases huv with
  | number hx hy =>
    cases hvw with
    | number hy' hz =>
      rw [hy] at hy'
      obtain rfl := Option.some.inj hy'
      exact .number hx hz
  | list hab =>
    cases hvw with
    | list hbc => exact .list ⟨_, hab, hbc⟩
  | text s => cases hvw; exact .text s
  | boolean b => cases hvw; exact .boolean b
  | element id => cases hvw; exact .element id
  | null => cases hvw; exact .null

/-- Only the lists that the values are matter. -/
theorem Related.imp_lists (hv : Related R v w)
    (hlists : ∀ a b, v = .list a → w = .list b → R a b → S a b) : Related S v w := by
  cases hv with
  | number hx hy => exact .number hx hy
  | text s => exact .text s
  | boolean b => exact .boolean b
  | list hr => exact .list (hlists _ _ rfl rfl hr)
  | element id => exact .element id
  | null => exact .null

/-- The value with another handle if it is a list. -/
def rename (f : ListId → ListId) : Value → Value
  | .list l => .list (f l)
  | v => v

@[simp]
theorem rename_id : rename id = id := by
  funext v
  cases v <;> rfl

theorem related_rename_iff {f : ListId → ListId} :
    Related R (v.rename f) (w.rename f) ↔ Related (fun a b => R (f a) (f b)) v w := by
  constructor
  · intro hr
    cases v <;> cases w <;> cases hr
    case number.number hx hy => exact .number hx hy
    case text.text => exact .text _
    case boolean.boolean => exact .boolean _
    case list.list hr => exact .list hr
    case element.element => exact .element _
    case null.null => exact .null
  · intro hr
    cases hr with
    | number hx hy => exact .number hx hy
    | text s => exact .text s
    | boolean b => exact .boolean b
    | list hr => exact .list hr
    | element id => exact .element id
    | null => exact .null

def IsNaN (v : Value) : Prop := ∃ x, v = .number x ∧ x.isNaN = true

/-- Every value but NaN agrees with itself, given that a list does. -/
theorem related_self_iff : Related R v v ↔ ¬ v.IsNaN ∧ ∀ l, v = .list l → R l l := by
  cases v with
  | number x => simp [related_number_self_iff, IsNaN]
  | text s => simp [related_text_iff, IsNaN]
  | boolean b => simp [related_boolean_iff, IsNaN]
  | list l => simp [related_list_iff, IsNaN]
  | element id => simp [related_element_iff, IsNaN]
  | null => simp [Related.null, IsNaN]

end Value

namespace Heap

variable {h h' : Heap} {a b c k l : ListId} {u v w : Value}

theorem Bisimilar.symm (hab : h.Bisimilar a b) : h.Bisimilar b a := by
  obtain ⟨R, hR, hr⟩ := hab
  refine ⟨flip R, ?_, hr⟩
  intro x y hxy
  exact ((hR y x hxy).imp fun _ _ => Value.Related.symm).flip

theorem Bisimilar.trans (hab : h.Bisimilar a b) (hbc : h.Bisimilar b c) : h.Bisimilar a c := by
  obtain ⟨R, hR, hr⟩ := hab
  obtain ⟨S, hS, hs⟩ := hbc
  refine ⟨Relation.Comp R S, ?_, b, hr, hs⟩
  rintro x z ⟨y, hxy, hyz⟩
  refine (forall₂_comp (hR x y hxy) (hS y z hyz)).imp ?_
  rintro u w ⟨v, huv, hvw⟩
  exact huv.comp hvw

theorem equal_comm (h : Heap) (v w : Value) : h.equal v w = h.equal w v := by
  have hsymm {v w : Value} (hvw : h.equal v w = true) : h.equal w v = true := by
    rw [equal_iff_related] at hvw ⊢
    exact hvw.symm.mono fun _ _ => Bisimilar.symm
  exact Bool.eq_iff_iff.mpr ⟨hsymm, hsymm⟩

theorem equal_trans (huv : h.equal u v = true) (hvw : h.equal v w = true) :
    h.equal u w = true := by
  rw [equal_iff_related] at *
  refine (huv.comp hvw).mono ?_
  rintro a c ⟨b, hab, hbc⟩
  exact hab.trans hbc

/-- A value that is equal to anything is equal to itself. -/
theorem equal_self_of_equal (hvw : h.equal v w = true) : h.equal w w = true :=
  equal_trans ((h.equal_comm w v).trans hvw) hvw

theorem Reaches.step (hv : h.Reaches v l) (hk : .list k ∈ h.elements l) : h.Reaches v k := by
  induction hv with
  | here l => exact .inside hk (.here k)
  | inside hv _ ih => exact .inside hv (ih hk)

/-- The value is NaN or holds one at some depth. -/
def HoldsNaN (h : Heap) (v : Value) : Prop :=
  v.IsNaN ∨ ∃ l, h.Reaches v l ∧ ∃ w ∈ h.elements l, w.IsNaN

theorem equal_self_iff : h.equal v v = true ↔ ¬ h.HoldsNaN v := by
  rw [equal_iff_related]
  constructor
  · intro hself
    rintro (hnan | ⟨l, hl, w, hw, hnan⟩)
    · exact (Value.related_self_iff.mp hself).1 hnan
    · have hlist : h.Bisimilar l l := by
        induction hl with
        | here l => exact Value.related_list_iff.mp hself
        | inside hv _ ih =>
          exact ih (List.forall₂_same.mp (Value.related_list_iff.mp hself).elements _ hv) hw
      exact (Value.related_self_iff.mp (List.forall₂_same.mp hlist.elements w hw)).1 hnan
  · intro hnan
    -- The lists that the value reaches, each related to itself, are a bisimulation.
    have hreached : h.IsBisimulation fun a b => a = b ∧ h.Reaches v a := by
      rintro a _ ⟨rfl, ha⟩
      refine List.forall₂_same.mpr fun w hw => Value.related_self_iff.mpr ⟨?_, ?_⟩
      · exact fun hwnan => hnan (.inr ⟨a, ha, w, hw, hwnan⟩)
      · rintro k rfl
        exact ⟨rfl, ha.step hw⟩
    refine Value.related_self_iff.mpr ⟨fun hvnan => hnan (.inl hvnan), ?_⟩
    rintro l rfl
    exact ⟨_, hreached, rfl, .here l⟩

/--
The lists of `P`, with all the lists that they hold, are found in the second heap too, under the
handles that `f` gives.
-/
structure Embeds (h h' : Heap) (f : ListId → ListId) (P : ListId → Prop) : Prop where
  closed : ∀ a, P a → ∀ k, .list k ∈ h.elements a → P k
  elements : ∀ a, P a → h'.elements (f a) = (h.elements a).map (Value.rename f)

namespace Embeds

variable {f : ListId → ListId} {P : ListId → Prop} (he : h.Embeds h' f P)
include he

theorem forall₂_elements_iff {R : ListId → ListId → Prop} (ha : P a) (hb : P b) :
    List.Forall₂ (Value.Related R) (h'.elements (f a)) (h'.elements (f b)) ↔
      List.Forall₂ (Value.Related fun x y => R (f x) (f y)) (h.elements a) (h.elements b) := by
  rw [he.elements a ha, he.elements b hb, List.forall₂_map_left_iff, List.forall₂_map_right_iff]
  simp only [Value.related_rename_iff]

theorem bisimilar_iff (ha : P a) (hb : P b) : h'.Bisimilar (f a) (f b) ↔ h.Bisimilar a b := by
  constructor
  · rintro ⟨R, hR, hr⟩
    refine ⟨fun x y => R (f x) (f y) ∧ P x ∧ P y, ?_, hr, ha, hb⟩
    rintro x y ⟨hxy, hx, hy⟩
    have hrelated := (he.forall₂_elements_iff hx hy).mp (hR _ _ hxy)
    refine forall₂_imp_of_mem hrelated fun v hv w hw hvw => hvw.imp_lists ?_
    rintro c d rfl rfl hcd
    exact ⟨hcd, he.closed x hx c hv, he.closed y hy d hw⟩
  · rintro ⟨R, hR, hr⟩
    refine ⟨fun x' y' => ∃ x y, x' = f x ∧ y' = f y ∧ R x y ∧ P x ∧ P y, ?_,
      a, b, rfl, rfl, hr, ha, hb⟩
    rintro _ _ ⟨x, y, rfl, rfl, hxy, hx, hy⟩
    refine (he.forall₂_elements_iff hx hy).mpr ?_
    refine forall₂_imp_of_mem (hR x y hxy) fun v hv w hw hvw => hvw.imp_lists ?_
    rintro c d rfl rfl hcd
    exact ⟨c, d, rfl, rfl, hcd, he.closed x hx c hv, he.closed y hy d hw⟩

theorem equal_rename (hv : ∀ l, v = .list l → P l) (hw : ∀ l, w = .list l → P l) :
    h'.equal (v.rename f) (w.rename f) = h.equal v w := by
  rw [Bool.eq_iff_iff, equal_iff_related, equal_iff_related, Value.related_rename_iff]
  constructor
  · intro hr
    exact hr.imp_lists fun a b ha hb => (he.bisimilar_iff (hv a ha) (hw b hb)).mp
  · intro hr
    exact hr.imp_lists fun a b ha hb => (he.bisimilar_iff (hv a ha) (hw b hb)).mpr

end Embeds

/-- What no value reaches may change. -/
theorem equal_congr_of_reaches
    (hkeep : ∀ k, h.Reaches v k ∨ h.Reaches w k → h'.elements k = h.elements k) :
    h'.equal v w = h.equal v w := by
  have he : h.Embeds h' id fun k => h.Reaches v k ∨ h.Reaches w k := by
    refine ⟨fun a ha k hk => ?_, fun a ha => ?_⟩
    · exact ha.imp (fun hv => hv.step hk) fun hw => hw.step hk
    · rw [Value.rename_id, List.map_id]
      exact hkeep a ha
  have heq := he.equal_rename (v := v) (w := w) ?_ ?_
  · rwa [Value.rename_id] at heq
  · rintro l rfl
    exact .inl (.here l)
  · rintro l rfl
    exact .inr (.here l)

end Heap

end PageScript
