import PageScript.Proofs.EqualTexts
import PageScript.Proofs.Encodings
import PageScript.Proofs.InspectedNumbers
import PageScript.Proofs.Quoting

/-!
# Inspection tells trees apart

The text of a tree for inspection starts with the name of its constructor, and what is inside ends at
a mark that it does not hold. So the text can be read from the front: it shows where it ends, also
in front of other text, and which tree was written. Texts inside it may look like parts of it; they
are quoted, and a quote or a backslash of theirs is escaped.

Main statement: two values have the same text for inspection exactly if they unfold to the same
tree, where every NaN counts as the same number.
-/

namespace PageScript

namespace Tree

/--
The same constructors and the same leaves, and lists of the same length with the same elements. A
number is the same if its encoding is, or if both are NaN. Of a cut the level is not asked.
-/
inductive Same : Tree → Tree → Prop where
  | number {x y : Binary64} (hxy : x.toBits = y.toBits ∨ x.isNaN = true ∧ y.isNaN = true) :
    Same (.number x) (.number y)
  | text (s : String) : Same (.text s) (.text s)
  | boolean (b : Bool) : Same (.boolean b) (.boolean b)
  | element (id : ElementId) : Same (.element id) (.element id)
  | null : Same .null .null
  | items {ts us : List Tree} (helements : List.Forall₂ Same ts us) : Same (.items ts) (.items us)
  | cut (i j : Nat) : Same (.cut i) (.cut j)

/-- What a tree is by its constructor. A list that is cut is a list. -/
inductive Kind where
  | number
  | text
  | boolean
  | element
  | null
  | list
deriving DecidableEq

def kind : Tree → Kind
  | .number _ => .number
  | .text _ => .text
  | .boolean _ => .boolean
  | .element _ => .element
  | .null => .null
  | .items _ => .list
  | .cut _ => .list

/-- How the text of a tree starts. -/
def Kind.opening : Kind → List Char
  | .number => "Number(".toList
  | .text => "Text(".toList
  | .boolean => "Boolean(".toList
  | .element => "Element(ElementId(".toList
  | .null => "Null".toList
  | .list => "List(Lista([".toList

/-- No constructor's name is the start of another's. -/
theorem Kind.eq_of_opening_starts {k k' : Kind} (h : k.opening <+: k'.opening) : k = k' := by
  revert h
  cases k <;> cases k' <;> decide

theorem Kind.opening_append_inj {k k' : Kind} {r r' : List Char}
    (h : k.opening ++ r = k'.opening ++ r') : k = k' ∧ r = r' := by
  have hkind : k = k' := by
    rcases List.prefix_or_prefix_of_prefix (List.prefix_append k.opening r)
      (h ▸ List.prefix_append k'.opening r') with hstart | hstart
    · exact eq_of_opening_starts hstart
    · exact (eq_of_opening_starts hstart).symm
  subst hkind
  exact ⟨rfl, List.append_cancel_left h⟩

variable [CharacterSet]

/-- The texts of further elements, each behind a comma. -/
def further (ts : List Tree) : List Char := ts.flatMap fun t => [',', ' '] ++ t.inspectText.toList

def elementsText : List Tree → List Char
  | [] => []
  | t :: ts => t.inspectText.toList ++ further ts

/-- What comes behind the start. -/
def inside : Tree → List Char
  | .number x => x.inspect.toList ++ [')']
  | .text s => (quote s).toList ++ [')']
  | .boolean b => (if b then "true" else "false").toList ++ [')']
  | .element id => (quote id.name).toList ++ [')', ')']
  | .null => []
  | .items ts => elementsText ts ++ [']', ')', ')']
  | .cut _ => ['.', '.', '.', ']', ')', ')']

theorem toList_elements (ts : List Tree) :
    (", ".intercalate (ts.map inspectText)).toList = elementsText ts := by
  cases ts with
  | nil => rfl
  | cons t ts =>
    rw [elementsText]
    induction ts generalizing t with
    | nil => simp [further]
    | cons u ts ih =>
      rw [List.map_cons, List.map_cons, String.intercalate_cons_cons, String.toList_append,
        String.toList_append, ← List.map_cons, ih u, further, further, List.flatMap_cons]
      simp

theorem toList_inspectText (t : Tree) : t.inspectText.toList = t.kind.opening ++ t.inside := by
  cases t with
  | null =>
    rw [inspectText]
    rfl
  | items ts =>
    rw [inspectText, String.toList_append, String.toList_append, toList_elements,
      List.append_assoc]
    rfl
  | cut i =>
    rw [inspectText]
    rfl
  | _ =>
    simp only [inspectText, String.toList_append, List.append_assoc]
    rfl

/-- The start of a text shows the constructor. -/
theorem kind_eq_of_append_eq {t u : Tree} {r r' : List Char}
    (h : t.inspectText.toList ++ r = u.inspectText.toList ++ r') :
    t.kind = u.kind ∧ t.inside ++ r = u.inside ++ r' := by
  rw [toList_inspectText, toList_inspectText, List.append_assoc, List.append_assoc] at h
  exact Kind.opening_append_inj h

/-- An element starts with a letter, so neither an empty list nor a cut is taken for it. -/
theorem inspectText_append_ne (t : Tree) {mark : Char} (hmark : mark = ']' ∨ mark = '.')
    (r r' : List Char) : t.inspectText.toList ++ r ≠ mark :: r' := by
  have hletter (k : Kind) : ∃ c cs, k.opening = c :: cs ∧ c ≠ ']' ∧ c ≠ '.' := by
    cases k <;> exact ⟨_, _, rfl, by decide, by decide⟩
  obtain ⟨c, cs, hopening, hclose, hdot⟩ := hletter t.kind
  rw [toList_inspectText, hopening]
  intro h
  have hc : c = mark := (List.cons.inj h).1
  rcases hmark with rfl | rfl
  · exact hclose hc
  · exact hdot hc

/-- Whatever comes behind it, the text of the tree tells where it ends and which tree was written. -/
def Unambiguous (t : Tree) : Prop :=
  ∀ (u : Tree) (r r' : List Char), t.inspectText.toList ++ r = u.inspectText.toList ++ r' →
    t.Same u ∧ r = r'

section Elements

variable {ts us : List Tree} {r r' : List Char}

/-- Behind an element there is a comma or the end. -/
theorem further_append_inj (ih : ∀ t ∈ ts, t.Unambiguous)
    (h : further ts ++ ']' :: r = further us ++ ']' :: r') :
    List.Forall₂ Same ts us ∧ r = r' := by
  induction ts generalizing us with
  | nil =>
    cases us with
    | nil => exact ⟨.nil, (List.cons.inj h).2⟩
    | cons u us => exact absurd (List.cons.inj h).1 (by decide)
  | cons t ts ihts =>
    cases us with
    | nil => exact absurd (List.cons.inj h).1 (by decide)
    | cons u us =>
      simp only [further, List.flatMap_cons, List.append_assoc, List.append_cancel_left_eq] at h
      obtain ⟨htu, h⟩ := ih t List.mem_cons_self u _ _ h
      obtain ⟨hrest, hr⟩ := ihts (fun t ht => ih t (List.mem_cons_of_mem _ ht)) h
      exact ⟨.cons htu hrest, hr⟩

theorem elementsText_append_inj (ih : ∀ t ∈ ts, t.Unambiguous)
    (h : elementsText ts ++ ']' :: r = elementsText us ++ ']' :: r') :
    List.Forall₂ Same ts us ∧ r = r' := by
  cases ts with
  | nil =>
    cases us with
    | nil => exact ⟨.nil, (List.cons.inj h).2⟩
    | cons u us =>
      rw [elementsText, elementsText, List.append_assoc] at h
      exact absurd h.symm (u.inspectText_append_ne (.inl rfl) _ _)
  | cons t ts =>
    rw [elementsText, List.append_assoc] at h
    cases us with
    | nil => exact absurd h (t.inspectText_append_ne (.inl rfl) _ _)
    | cons u us =>
      rw [elementsText, List.append_assoc] at h
      obtain ⟨htu, h⟩ := ih t List.mem_cons_self u _ _ h
      obtain ⟨hrest, hr⟩ := further_append_inj (fun t ht => ih t (List.mem_cons_of_mem _ ht)) h
      exact ⟨.cons htu hrest, hr⟩

/-- The dots of a cut are no elements. -/
theorem elementsText_append_ne : elementsText ts ++ ']' :: r ≠ '.' :: r' := by
  cases ts with
  | nil => exact fun h => absurd (List.cons.inj h).1 (by decide)
  | cons t ts =>
    rw [elementsText, List.append_assoc]
    exact t.inspectText_append_ne (.inr rfl) _ _

end Elements

theorem unambiguous (t : Tree) : t.Unambiguous := by
  intro u r r' h
  obtain ⟨hkind, hinside⟩ := kind_eq_of_append_eq h
  clear h
  induction t using inspectText.induct generalizing u r r' with
  | case1 x =>
    cases u with
    | number y =>
      rw [inside, inside, List.append_assoc, List.append_assoc] at hinside
      obtain ⟨htext, hr⟩ :=
        (append_mark_inj x.bracket_notMem_inspect y.bracket_notMem_inspect).mp hinside
      have hxy := Binary.eq_of_inspect_eq (String.toList_inj.mp htext)
      exact ⟨.number (hxy.imp_left (congrArg Binary.toBits)), hr⟩
    | _ => cases hkind
  | case2 s =>
    cases u with
    | text s' =>
      rw [inside, inside, List.append_assoc, List.append_assoc] at hinside
      obtain ⟨rfl, hrest⟩ := quote_append_inj hinside
      exact ⟨.text s, (List.cons.inj hrest).2⟩
    | _ => cases hkind
  | case3 b =>
    cases u with
    | boolean b' =>
      cases b <;> cases b' <;> simp [inside] at hinside ⊢
      all_goals exact ⟨.boolean _, hinside⟩
    | _ => cases hkind
  | case4 id =>
    cases u with
    | element id' =>
      rw [inside, inside, List.append_assoc, List.append_assoc] at hinside
      obtain ⟨hname, hrest⟩ := quote_append_inj hinside
      obtain rfl : id = id' := congrArg ElementId.mk hname
      exact ⟨.element id, List.append_cancel_left hrest⟩
    | _ => cases hkind
  | case5 =>
    cases u with
    | null => exact ⟨.null, hinside⟩
    | _ => cases hkind
  | case6 ts ih =>
    cases u with
    | items us =>
      rw [inside, inside, List.append_assoc, List.append_assoc] at hinside
      have helements : ∀ t ∈ ts, t.Unambiguous := fun t ht u r r' h =>
        ih t ht u r r' (kind_eq_of_append_eq h).1 (kind_eq_of_append_eq h).2
      obtain ⟨hsame, hrest⟩ := elementsText_append_inj helements hinside
      exact ⟨.items hsame, List.append_cancel_left hrest⟩
    | cut j =>
      rw [inside, inside, List.append_assoc] at hinside
      exact absurd hinside elementsText_append_ne
    | _ => cases hkind
  | case7 i =>
    cases u with
    | items us =>
      rw [inside, inside, List.append_assoc (elementsText us)] at hinside
      exact absurd hinside.symm elementsText_append_ne
    | cut j => exact ⟨.cut i j, List.append_cancel_left hinside⟩
    | _ => cases hkind

theorem Same.inspectText_eq {t u : Tree} (h : t.Same u) : t.inspectText = u.inspectText := by
  induction t using inspectText.induct generalizing u with
  | case1 x =>
    cases h with
    | @number _ y hxy =>
      have htext : x.inspect = y.inspect := by
        rw [Binary.inspect_eq_iff]
        exact hxy.imp_left (Binary.toBits_inj (by decide) (by decide))
      rw [inspectText, inspectText, htext]
  | case6 ts ih =>
    cases h with
    | items hsame =>
      rw [inspectText, inspectText, map_eq_of_forall₂ hsame fun t ht u _ htu => ih t ht htu]
  | case7 i =>
    cases h
    rw [inspectText, inspectText]
  | _ =>
    cases h
    rfl

theorem inspectText_eq_iff {t u : Tree} : t.inspectText = u.inspectText ↔ t.Same u := by
  refine ⟨fun h => ?_, Same.inspectText_eq⟩
  have happend : t.inspectText.toList ++ [] = u.inspectText.toList ++ [] := by rw [h]
  exact (t.unambiguous u [] [] happend).1

end Tree

namespace Heap

variable {h : Heap} {k l : ListId} {v : Value}

theorem Reaches.trans (hl : h.Reaches v l) (hk : h.Reaches (.list l) k) : h.Reaches v k := by
  induction hl with
  | here l => exact hk
  | inside hv _ ih => exact .inside hv (ih hk)

theorem Acyclic.of_reaches (hv : h.Acyclic v) (hl : h.Reaches v l) : h.Acyclic (.list l) :=
  fun _ hk => hv _ (hl.trans hk)

theorem inspectWalk_returns [CharacterSet] (h : Heap) (v : Value) {depth : Nat}
    (hd : h.listCount < depth) : (h.inspectWalk depth v).Returns [] (h.inspect v) := by
  rw [inspect_eq_inspectText]
  exact h.inspectWalk_returns_tree v (Nat.lt_of_le_of_lt (h.unopened_le _) hd)

/--
Inspection of a value ends with a text, and values of one heap or of two have the same text exactly
if they unfold to the same tree, whichever characters are given by their code points. If no cycle
can be reached from a value, its tree is that of all its elements: at no depth is a list cut.
-/
theorem inspect_eq_iff_same_tree [CharacterSet] (h h' : Heap) (v w : Value) :
    (∀ depth, h.listCount < depth →
      (h.inspectWalk depth v).run [] = some (h.inspect v, [])) ∧
    (h.inspect v = h'.inspect w ↔ (h.unfold v).Same (h'.unfold w)) ∧
    (h.Acyclic v → ∀ l, h.Reaches v l →
      h.unfold (.list l) = .items ((h.elements l).map h.unfold)) := by
  refine ⟨fun depth hd => h.inspectWalk_returns v hd, ?_, fun hv l hl => ?_⟩
  · rw [inspect_eq_inspectText, inspect_eq_inspectText, Tree.inspectText_eq_iff]
  · exact (hv.of_reaches hl).unfold_list

/-- Two lists with one text each, a list that holds the first twice, and one that holds both. -/
def pairsHeap : Heap :=
  ⟨#[[.text "a"], [.text "a"], [.list ⟨0⟩, .list ⟨0⟩], [.list ⟨0⟩, .list ⟨1⟩]]⟩

/-- Whether the two places share a list does not show. -/
theorem inspect_eq_iff_same_tree_pairs :
    pairsHeap.listCount < 5 ∧
      (pairsHeap.inspectWalk 5 (.list ⟨2⟩)).run [] = some (pairsHeap.inspect (.list ⟨2⟩), []) ∧
      pairsHeap.Acyclic (.list ⟨2⟩) ∧
      pairsHeap.unfold (.list ⟨2⟩) =
        .items [pairsHeap.unfold (.list ⟨0⟩), pairsHeap.unfold (.list ⟨0⟩)] ∧
      (pairsHeap.unfold (.list ⟨2⟩)).Same (pairsHeap.unfold (.list ⟨3⟩)) ∧
      pairsHeap.inspect (.list ⟨2⟩) = pairsHeap.inspect (.list ⟨3⟩) := by
  have hacyclic (v : Value) : pairsHeap.Acyclic v := acyclic_of_holdsOlder rfl v
  have hitems (l : ListId) :
      pairsHeap.unfold (.list l) = .items ((pairsHeap.elements l).map pairsHeap.unfold) := by
    obtain ⟨-, -, hunfold⟩ := inspect_eq_iff_same_tree pairsHeap pairsHeap (.list l) (.list l)
    exact hunfold (hacyclic _) l (.here l)
  have hone (l : ListId) (hl : pairsHeap.elements l = [.text "a"]) :
      pairsHeap.unfold (.list l) = .items [.text "a"] := by
    rw [hitems, hl, List.map_singleton, unfold, unfoldBelow]
  have hsame : (pairsHeap.unfold (.list ⟨2⟩)).Same (pairsHeap.unfold (.list ⟨3⟩)) := by
    have hleaf : (Tree.items [.text "a"]).Same (.items [.text "a"]) :=
      .items (.cons (.text "a") .nil)
    rw [hitems ⟨2⟩, hitems ⟨3⟩]
    refine .items (.cons ?_ (.cons ?_ .nil))
    · rwa [hone ⟨0⟩ rfl]
    · rwa [hone ⟨0⟩ rfl, hone ⟨1⟩ rfl]
  obtain ⟨hends, hiff, -⟩ := inspect_eq_iff_same_tree pairsHeap pairsHeap (.list ⟨2⟩) (.list ⟨3⟩)
  exact ⟨by decide, hends 5 (by decide), hacyclic _, hitems ⟨2⟩, hsame, hiff.mpr hsame⟩

end Heap

end PageScript
