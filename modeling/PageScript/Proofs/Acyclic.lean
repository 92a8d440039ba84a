import PageScript.Proofs.Unfolding

/-!
# Values without cycles

No list that such a value reaches is inside itself, though one list may be inside it at many
places. Going into its lists comes to an end on every path, which is an induction principle, and
its tree is cut nowhere. Nothing is assumed about the rest of the heap.
-/

namespace PageScript.Heap

/-- No list that the value reaches is inside itself. -/
def Acyclic (h : Heap) (v : Value) : Prop :=
  ∀ l, h.Reaches v l → ∀ w ∈ h.elements l, ¬ h.Reaches w l

variable {h : Heap} {l : ListId} {v : Value}

theorem Acyclic.element (hl : h.Acyclic (.list l)) (hv : v ∈ h.elements l) : h.Acyclic v :=
  fun k hk => hl k (.inside hv hk)

/-- A path of lists that the value does not reach grows to one that an element does not reach. -/
theorem Acyclic.path_element (hl : h.Acyclic (.list l)) {path : List ListId}
    (hpath : ∀ k ∈ path, ¬ h.Reaches (.list l) k) (hv : v ∈ h.elements l) :
    ∀ k ∈ l :: path, ¬ h.Reaches v k := by
  intro k hk hreach
  rcases List.mem_cons.mp hk with rfl | hk
  · exact hl k (.here k) v hv hreach
  · exact hpath k hk (.inside hv hreach)

theorem Acyclic.element_not_reaches (hl : h.Acyclic (.list l)) (hv : v ∈ h.elements l) :
    ∀ k ∈ [l], ¬ h.Reaches v k :=
  hl.path_element (fun _ hk => absurd hk List.not_mem_nil) hv

/-- What holds of a list when it holds of its elements holds of all values without cycles. -/
theorem Acyclic.induction {motive : Value → Prop} (leaf : ∀ v, (∀ l, v ≠ .list l) → motive v)
    (list : ∀ l, h.Acyclic (.list l) → (∀ v ∈ h.elements l, motive v) → motive (.list l))
    (hv : h.Acyclic v) : motive v := by
  -- The lists on the way to a value are none that it reaches, so the way never closes.
  suffices hpaths : ∀ path : List ListId, (∀ k ∈ path, ¬ h.Reaches v k) → motive v from
    hpaths [] fun _ hk => absurd hk List.not_mem_nil
  intro path hpath
  induction path, v using unfoldBelow.induct (h := h) with
  | case6 path l hl => exact absurd (.here l) (hpath l hl)
  | case7 path l hl ih =>
    exact list l hv fun w hw => ih w hw (hv.element hw) (hv.path_element hpath hw)
  | _ => exact leaf _ fun _ hlist => by cases hlist

/-- The tree is the same below any lists that the value does not reach. -/
theorem Acyclic.unfoldBelow_eq (hv : h.Acyclic v) :
    ∀ path : List ListId, (∀ k ∈ path, ¬ h.Reaches v k) → h.unfoldBelow path v = h.unfold v := by
  refine hv.induction (motive := fun v => ∀ path : List ListId,
    (∀ k ∈ path, ¬ h.Reaches v k) → h.unfoldBelow path v = h.unfold v) ?_ ?_
  · intro v hleaf path _
    cases v with
    | list l => exact absurd rfl (hleaf l)
    | _ => simp only [unfold, unfoldBelow]
  · intro l hl ih path hpath
    have hout : l ∉ path := fun hmem => hpath l hmem (.here l)
    rw [unfold, unfoldBelow_of_notMem hout, unfoldBelow_of_notMem List.not_mem_nil]
    congr 1
    apply List.map_congr_left
    intro w hw
    rw [ih w hw (l :: path) (hl.path_element hpath hw), ih w hw [l] (hl.element_not_reaches hw)]

/-- A list unfolds to its elements, each unfolded by itself. -/
theorem Acyclic.unfold_list (hl : h.Acyclic (.list l)) :
    h.unfold (.list l) = .items ((h.elements l).map h.unfold) := by
  rw [unfold, unfoldBelow_of_notMem List.not_mem_nil]
  congr 1
  apply List.map_congr_left
  intro w hw
  exact (hl.element hw).unfoldBelow_eq [l] (hl.element_not_reaches hw)

/-- Whether every list of the heap holds only lists that are older. -/
def holdsOlder (h : Heap) : Bool :=
  (List.range h.listCount).all fun i => (h.elements ⟨i⟩).all fun
    | .list k => decide (k.index < i)
    | _ => true

theorem index_lt_of_holdsOlder (hold : h.holdsOlder = true) {k : ListId}
    (hk : .list k ∈ h.elements l) : k.index < l.index := by
  have hl : l.index ∈ List.range h.listCount := List.mem_range.mpr (h.lt_listCount_of_mem hk)
  have hall := List.all_eq_true.mp (List.all_eq_true.mp hold l.index hl) (.list k) hk
  exact of_decide_eq_true hall

theorem index_le_of_reaches (hold : h.holdsOlder = true) {k : ListId}
    (hk : h.Reaches v k) : ∀ l, v = .list l → k.index ≤ l.index := by
  induction hk with
  | here l =>
    rintro _ ⟨⟩
    exact Nat.le_refl _
  | @inside l k w hw hreach ih =>
    rintro _ ⟨⟩
    cases w with
    | list m =>
      have hlt := index_lt_of_holdsOlder hold hw
      have hle := ih m rfl
      omega
    | _ => cases hreach

/-- A list that is made from others holds older ones, and then nothing goes round. -/
theorem acyclic_of_holdsOlder (hold : h.holdsOlder = true) (v : Value) : h.Acyclic v := by
  intro l _ w hw hreach
  cases w with
  | list m =>
    have hlt := index_lt_of_holdsOlder hold hw
    have hle := index_le_of_reaches hold hreach m rfl
    omega
  | _ => cases hreach

end PageScript.Heap
