import PageScript.Proofs.Unfolding
import PageScript.Proofs.Writing

/-!
# Texts are texts of trees

The walks that write a value carry marks through a heap that may contain itself. What they put is
what the tree is written by, to which the value unfolds below the marked lists. For readers its text
is a plain sequence: the texts of the leaves with commas between them.
-/

namespace PageScript

/-- Joining joined texts is joining them all at once, unless one of them is made of nothing. -/
theorem intercalate_flatMap {α : Type} (s : String) {f : α → List String} {xs : List α}
    (hne : ∀ x ∈ xs, f x ≠ []) :
    s.intercalate (xs.flatMap f) = s.intercalate (xs.map fun x => s.intercalate (f x)) := by
  induction xs with
  | nil => rfl
  | cons x xs ih =>
    have hx : f x ≠ [] := hne x List.mem_cons_self
    have hxs : ∀ y ∈ xs, f y ≠ [] := fun y hy => hne y (List.mem_cons_of_mem x hy)
    cases xs with
    | nil => simp
    | cons y ys =>
      have hrest : (y :: ys).flatMap f ≠ [] := by simp [hxs y List.mem_cons_self]
      rw [List.flatMap_cons, String.intercalate_append_of_ne_nil hx hrest, ih hxs,
        ← String.intercalate_cons_of_ne_nil (by simp), List.map_cons (a := x)]

namespace Tree

/--
The texts of the leaves from left to right. A null, an empty list and a cut stand for one empty
text; any other list stands for the leaves of its elements.
-/
def leafTexts : Tree → List String
  | .number x => [x.text]
  | .text s => [s]
  | .boolean b => [if b then "true" else "false"]
  | .element id => ["<" ++ id.name ++ ">"]
  | .null => [""]
  | .items [] => [""]
  | .items children => children.flatMap leafTexts
  | .cut _ => [""]

/-- The text of a tree as an element of a list. -/
def placeText (t : Tree) : String := ",".intercalate t.leafTexts

/-- The text of a tree by itself. Only here a null has a name. -/
def displayText : Tree → String
  | .null => "null"
  | t => t.placeText

/-- The pieces in which a tree is written as an element of a list. -/
def placePieces : Tree → List String
  | .number x => [x.text]
  | .text s => [s]
  | .boolean b => [if b then "true" else "false"]
  | .element id => ["<", id.name, ">"]
  | .null => []
  | .items children => separate "," (children.map placePieces)
  | .cut _ => []

/-- The pieces in which a tree is written by itself. -/
def displayPieces : Tree → List String
  | .null => ["null"]
  | t => t.placePieces

theorem leafTexts_ne_nil (t : Tree) : t.leafTexts ≠ [] := by
  induction t using leafTexts.induct with
  | case7 children hne ih =>
    obtain ⟨c, cs, rfl⟩ := List.exists_cons_of_ne_nil hne
    have hc := ih c List.mem_cons_self
    simp [leafTexts, hc]
  | _ => simp [leafTexts]

theorem placeText_items (children : List Tree) :
    (items children).placeText = ",".intercalate (children.map placeText) := by
  cases children with
  | nil => simp [placeText, leafTexts]
  | cons c cs =>
    rw [placeText, leafTexts]
    · exact intercalate_flatMap "," fun t _ => t.leafTexts_ne_nil
    · simp

theorem displayText_of_ne_null {t : Tree} (ht : t ≠ .null) : t.displayText = t.placeText := by
  cases t with
  | null => exact absurd rfl ht
  | _ => rfl

theorem displayPieces_of_ne_null {t : Tree} (ht : t ≠ .null) :
    t.displayPieces = t.placePieces := by
  cases t with
  | null => exact absurd rfl ht
  | _ => rfl

theorem join_placePieces (t : Tree) : String.join t.placePieces = t.placeText := by
  induction t using placePieces.induct with
  | case6 children ih =>
    rw [placePieces, join_separate, placeText_items, List.map_map]
    congr 1
    exact List.map_congr_left ih
  | _ => simp [placePieces, placeText, leafTexts, String.append_assoc]

theorem join_displayPieces (t : Tree) : String.join t.displayPieces = t.displayText := by
  cases t with
  | null => simp [displayPieces, displayText]
  | _ =>
    rw [displayPieces_of_ne_null (by simp), displayText_of_ne_null (by simp), join_placePieces]

theorem placePieces_forgetLevels (t : Tree) : t.forgetLevels.placePieces = t.placePieces := by
  induction t using placePieces.induct with
  | case6 children ih =>
    rw [forgetLevels, placePieces, placePieces, List.map_map]
    congr 1
    exact List.map_congr_left ih
  | _ => simp [forgetLevels, placePieces]

theorem displayPieces_forgetLevels (t : Tree) :
    t.forgetLevels.displayPieces = t.displayPieces := by
  cases t with
  | null => simp only [forgetLevels]
  | _ =>
    rw [displayPieces_of_ne_null (by simp [forgetLevels]), displayPieces_of_ne_null (by simp),
      placePieces_forgetLevels]

section Inspection

variable [CharacterSet]

def inspectText : Tree → String
  | .number x => "Number(" ++ x.inspect ++ ")"
  | .text s => "Text(" ++ quote s ++ ")"
  | .boolean b => "Boolean(" ++ (if b then "true" else "false") ++ ")"
  | .element id => "Element(ElementId(" ++ quote id.name ++ "))"
  | .null => "Null"
  | .items children => "List(Lista([" ++ ", ".intercalate (children.map inspectText) ++ "]))"
  | .cut _ => "List(Lista([...]))"

/-- The pieces in which a tree is written for inspection. -/
def inspectPieces : Tree → List String
  | .number x => ["Number", "(", x.inspect, ")"]
  | .text s => ["Text", "(", quote s, ")"]
  | .boolean b => ["Boolean", "(", if b then "true" else "false", ")"]
  | .element id => ["Element", "(", "ElementId", "(", quote id.name, ")", ")"]
  | .null => ["Null"]
  | .items children =>
    ["List", "(", "Lista(", "["] ++ (separate ", " (children.map inspectPieces) ++ ["]", ")", ")"])
  | .cut _ => ["List", "(", "Lista([...])", ")"]

theorem join_inspectPieces (t : Tree) : String.join t.inspectPieces = t.inspectText := by
  induction t using inspectPieces.induct with
  | case6 children ih =>
    have htexts : (children.map inspectPieces).map String.join = children.map inspectText := by
      rw [List.map_map]
      exact List.map_congr_left ih
    rw [inspectPieces, inspectText, String.join_append, String.join_append, join_separate, htexts,
      String.append_assoc]
    rfl
  | _ => simp [inspectPieces, inspectText, ← String.append_assoc]

theorem inspectPieces_forgetLevels (t : Tree) :
    t.forgetLevels.inspectPieces = t.inspectPieces := by
  induction t using inspectPieces.induct with
  | case6 children ih =>
    rw [forgetLevels, inspectPieces, inspectPieces, List.map_map]
    congr 3
    exact List.map_congr_left ih
  | _ => simp [forgetLevels, inspectPieces]

end Inspection

end Tree

namespace Marks

/-- The lists that are being written for readers, innermost first. -/
def displayed (marks : Marks) : List ListId :=
  marks.filterMap fun
    | .displaying l => some l
    | _ => none

/-- The lists that are being written for inspection, innermost first. -/
def inspected (marks : Marks) : List ListId :=
  marks.filterMap fun
    | .inspecting l => some l
    | _ => none

theorem mem_displayed_iff {marks : Marks} {l : ListId} :
    l ∈ displayed marks ↔ .displaying l ∈ marks := by
  rw [displayed, List.mem_filterMap]
  constructor
  · rintro ⟨mark, hm, hl⟩
    cases mark <;> cases hl
    exact hm
  · intro hm
    exact ⟨.displaying l, hm, rfl⟩

theorem mem_inspected_iff {marks : Marks} {l : ListId} :
    l ∈ inspected marks ↔ .inspecting l ∈ marks := by
  rw [inspected, List.mem_filterMap]
  constructor
  · rintro ⟨mark, hm, hl⟩
    cases mark <;> cases hl
    exact hm
  · intro hm
    exact ⟨.inspecting l, hm, rfl⟩

theorem displayed_cons (l : ListId) (marks : Marks) :
    displayed (.displaying l :: marks) = l :: displayed marks := rfl

theorem inspected_cons (l : ListId) (marks : Marks) :
    inspected (.inspecting l :: marks) = l :: inspected marks := rfl

end Marks

namespace Heap

open Marks (displayed inspected mem_displayed_iff mem_inspected_iff displayed_cons inspected_cons)

variable {h : Heap}

theorem unfoldBelow_ne_null {path : List ListId} {v : Value} (hv : v ≠ .null) :
    h.unfoldBelow path v ≠ .null := by
  cases v with
  | null => exact absurd rfl hv
  | list l =>
    by_cases hl : l ∈ path
    · simp [unfoldBelow_of_mem hl]
    · simp [unfoldBelow_of_notMem hl]
  | _ => simp [unfoldBelow]

theorem displayText_unfoldBelow_list (h : Heap) (path : List ListId) (l : ListId) :
    (h.unfoldBelow path (.list l)).displayText = (h.unfoldBelow path (.list l)).placeText :=
  Tree.displayText_of_ne_null (unfoldBelow_ne_null nofun)

theorem displayPieces_unfoldBelow_list (h : Heap) (path : List ListId) (l : ListId) :
    (h.unfoldBelow path (.list l)).displayPieces = (h.unfoldBelow path (.list l)).placePieces :=
  Tree.displayPieces_of_ne_null (unfoldBelow_ne_null nofun)

theorem placePieces_unfoldBelow_list {path : List ListId} {l : ListId} (hl : l ∉ path) :
    (h.unfoldBelow path (.list l)).placePieces =
      separate "," ((h.elements l).map fun v => (h.unfoldBelow (l :: path) v).placePieces) := by
  rw [unfoldBelow_of_notMem hl, Tree.placePieces, List.map_map]
  rfl

section Writing

variable {ε σ : Type} {sink : Sink ε σ}

/-- What is not a list needs no depth and leaves the marks alone. -/
theorem displayTo_leaf_puts (depth : Nat) (marks : Marks) (path : List ListId) {v : Value}
    (hv : ∀ l, v ≠ .list l) :
    Writing.Puts sink (h.displayTo sink depth v) marks (h.unfoldBelow path v).displayPieces := by
  cases v with
  | list l => exact absurd rfl (hv l)
  | null =>
    rw [displayTo, unfoldBelow, Tree.displayPieces]
    exact Writing.puts_put "null"
  | element id =>
    rw [displayTo, unfoldBelow, Tree.displayPieces_of_ne_null (by simp), Tree.placePieces]
    exact (Writing.puts_put "<").seq ((Writing.puts_put id.name).seq (Writing.puts_put ">"))
  | _ =>
    rw [displayTo, unfoldBelow, Tree.displayPieces_of_ne_null (by simp), Tree.placePieces]
    exact Writing.puts_put _

/-- An element is written as it is, except that a null leaves its place empty. -/
theorem element_puts {depth : Nat} {marks : Marks} {path : List ListId} {v : Value}
    (hv : Writing.Puts sink (h.displayTo sink depth v) marks
      (h.unfoldBelow path v).displayPieces) :
    Writing.Puts sink (if v.isNull then pure () else h.displayTo sink depth v) marks
      (h.unfoldBelow path v).placePieces := by
  by_cases hn : v = .null
  · subst hn
    have hempty : (h.unfoldBelow path .null).placePieces = [] := by
      rw [unfoldBelow, Tree.placePieces]
    rw [hempty, if_pos (show Value.null.isNull = true from rfl)]
    exact Writing.puts_pure
  · have hnot : ¬ v.isNull = true := by
      cases v <;> simp_all [Value.isNull]
    rw [if_neg hnot, ← Tree.displayPieces_of_ne_null (unfoldBelow_ne_null hn)]
    exact hv

/--
At a depth above the number of lists that are not marked, writing a value for readers ends,
gives the marks back, and puts what its tree below the marked lists is written by.
-/
theorem displayTo_puts_tree (h : Heap) {depth : Nat} {marks : Marks} (v : Value)
    (hd : h.unopened (displayed marks) < depth) :
    Writing.Puts sink (h.displayTo sink depth v) marks
      (h.unfoldBelow (displayed marks) v).displayPieces := by
  induction depth generalizing marks v with
  | zero => omega
  | succ depth ih =>
    cases v with
    | list l =>
      rw [displayTo, displayPieces_unfoldBelow_list]
      by_cases hl : l ∈ displayed marks
      · rw [unfoldBelow_of_mem hl, Tree.placePieces]
        exact Writing.puts_once_again (mem_displayed_iff.mp hl) Writing.puts_pure
      · rw [placePieces_unfoldBelow_list hl]
        apply Writing.Puts.once fun hm => hl (mem_displayed_iff.mpr hm)
        refine Writing.puts_separated fun v hv => ?_
        have hlt := h.unopened_cons_lt (h.lt_listCount_of_mem hv) hl
        have hd' : h.unopened (displayed (.displaying l :: marks)) < depth := by
          rw [displayed_cons]
          omega
        exact element_puts (ih v hd')
    | _ => exact displayTo_leaf_puts _ marks _ nofun

end Writing

theorem displayWalk_returns_tree (h : Heap) {depth : Nat} {marks : Marks} (v : Value)
    (hd : h.unopened (displayed marks) < depth) :
    (h.displayWalk depth v).Returns marks (h.unfoldBelow (displayed marks) v).displayText := by
  rw [← Tree.join_displayPieces]
  exact (h.displayTo_puts_tree v hd).text

theorem display_eq_displayText (h : Heap) (v : Value) :
    h.display v = (h.unfold v).displayText := by
  have hd : h.unopened (displayed []) < h.listCount + 1 := Nat.lt_succ_of_le (h.unopened_le _)
  rw [display, (h.displayWalk_returns_tree v hd).answer?, Option.getD_some]
  rfl

section Inspection

variable [CharacterSet] {ε σ : Type} {sink : Sink ε σ}

/-- The pieces of a list for inspection, when the lists on the path are open. -/
def listPiecesBelow (h : Heap) (path : List ListId) (l : ListId) : List String :=
  if l ∈ path then ["Lista([...])"]
  else ["Lista(", "["] ++ (separate ", " ((h.elements l).map fun v =>
    (h.unfoldBelow (l :: path) v).inspectPieces) ++ ["]", ")"])

theorem inspectPieces_unfoldBelow_list (h : Heap) (path : List ListId) (l : ListId) :
    (h.unfoldBelow path (.list l)).inspectPieces =
      ["List", "("] ++ (h.listPiecesBelow path l ++ [")"]) := by
  by_cases hl : l ∈ path
  · rw [unfoldBelow_of_mem hl, listPiecesBelow, if_pos hl, Tree.inspectPieces]
    rfl
  · rw [unfoldBelow_of_notMem hl, listPiecesBelow, if_neg hl, Tree.inspectPieces, List.map_map,
      List.append_assoc, List.append_assoc]
    rfl

/-- Only the elements of a list are written by the walk that is given. -/
theorem inspectListTo_puts {element : Value → Writing ε σ Unit} {depth : Nat} {marks : Marks}
    (l : ListId) (hd : h.unopened (inspected marks) ≤ depth)
    (he : ∀ (marks : Marks) (v : Value), h.unopened (inspected marks) < depth →
      Writing.Puts sink (element v) marks (h.unfoldBelow (inspected marks) v).inspectPieces) :
    Writing.Puts sink (h.inspectListTo sink element l) marks
      (h.listPiecesBelow (inspected marks) l) := by
  rw [inspectListTo, listPiecesBelow]
  by_cases hl : l ∈ inspected marks
  · rw [if_pos hl]
    exact Writing.puts_once_again (mem_inspected_iff.mp hl) (Writing.puts_put _)
  · rw [if_neg hl]
    have helements : Writing.Puts sink (Writing.separated sink ", " element (h.elements l))
        (.inspecting l :: marks) (separate ", " ((h.elements l).map fun v =>
          (h.unfoldBelow (l :: inspected marks) v).inspectPieces)) := by
      refine Writing.puts_separated fun v hv => ?_
      have hlt := h.unopened_cons_lt (h.lt_listCount_of_mem hv) hl
      exact he (.inspecting l :: marks) v (by rw [inspected_cons]; omega)
    refine .once (fun hm => hl (mem_inspected_iff.mpr hm)) ?_
    exact (Writing.puts_put "Lista(").seq ((Writing.puts_put "[").seq
      (helements.seq ((Writing.puts_put "]").seq (Writing.puts_put ")"))))

/-- The same for inspection, by the marks of inspection. -/
theorem inspectTo_puts_tree (h : Heap) {depth : Nat} {marks : Marks} (v : Value)
    (hd : h.unopened (inspected marks) < depth) :
    Writing.Puts sink (h.inspectTo sink depth v) marks
      (h.unfoldBelow (inspected marks) v).inspectPieces := by
  induction depth generalizing marks v with
  | zero => omega
  | succ depth ih =>
    cases v with
    | list l =>
      rw [inspectTo, inspectPieces_unfoldBelow_list]
      exact (inspectListTo_puts l (Nat.le_of_lt_succ hd) fun _ v => ih v).wrapped "List"
    | null =>
      rw [inspectTo, unfoldBelow, Tree.inspectPieces]
      exact Writing.puts_put "Null"
    | element id =>
      rw [inspectTo, unfoldBelow, Tree.inspectPieces]
      exact ((Writing.puts_put _).wrapped "ElementId").wrapped "Element"
    | _ =>
      rw [inspectTo, unfoldBelow, Tree.inspectPieces]
      exact (Writing.puts_put _).wrapped _

theorem inspectWalk_returns_tree (h : Heap) {depth : Nat} {marks : Marks} (v : Value)
    (hd : h.unopened (inspected marks) < depth) :
    (h.inspectWalk depth v).Returns marks (h.unfoldBelow (inspected marks) v).inspectText := by
  rw [← Tree.join_inspectPieces]
  exact (h.inspectTo_puts_tree v hd).text

theorem inspect_eq_inspectText (h : Heap) (v : Value) :
    h.inspect v = (h.unfold v).inspectText := by
  have hd : h.unopened (inspected []) < h.listCount + 1 := Nat.lt_succ_of_le (h.unopened_le _)
  rw [inspect, (h.inspectWalk_returns_tree v hd).answer?, Option.getD_some]
  rfl

theorem inspectPieces_unfoldBelow_congr {path path' : List ListId} {v : Value}
    (hp : ∀ k, h.Reaches v k → (k ∈ path ↔ k ∈ path')) :
    (h.unfoldBelow path v).inspectPieces = (h.unfoldBelow path' v).inspectPieces := by
  rw [← Tree.inspectPieces_forgetLevels, forgetLevels_unfoldBelow_congr hp,
    Tree.inspectPieces_forgetLevels]

theorem listPiecesBelow_congr {path path' : List ListId} {l : ListId}
    (hp : ∀ k, h.Reaches (.list l) k → (k ∈ path ↔ k ∈ path')) :
    h.listPiecesBelow path l = h.listPiecesBelow path' l := by
  have helements : ∀ v ∈ h.elements l, (h.unfoldBelow (l :: path) v).inspectPieces =
      (h.unfoldBelow (l :: path') v).inspectPieces := by
    intro v hv
    exact inspectPieces_unfoldBelow_congr fun k hk => mem_path_cons_iff hp hv hk
  rw [listPiecesBelow, listPiecesBelow, List.map_congr_left helements]
  simp only [hp l (.here l)]

theorem inspectListTo_puts_of_le (h : Heap) {depth : Nat} (marks : Marks) (l : ListId)
    (hd : h.listCount ≤ depth) :
    Writing.Puts sink (h.inspectListTo sink (h.inspectTo sink depth) l) marks
      (h.listPiecesBelow (inspected marks) l) :=
  inspectListTo_puts l (Nat.le_trans (h.unopened_le _) hd) fun _ v => h.inspectTo_puts_tree v

theorem inspectListWalk_returns (h : Heap) {depth : Nat} (l : ListId) (hd : h.listCount ≤ depth) :
    (h.inspectListWalk depth l).Returns [] (String.join (h.listPiecesBelow [] l)) :=
  (h.inspectListTo_puts_of_le [] l hd).text

theorem inspectList_eq_join (h : Heap) (l : ListId) :
    h.inspectList l = String.join (h.listPiecesBelow [] l) := by
  rw [inspectList, (h.inspectListWalk_returns l (Nat.le_refl _)).answer?, Option.getD_some]

end Inspection

theorem displayPieces_unfoldBelow_congr {path path' : List ListId} {v : Value}
    (hp : ∀ k, h.Reaches v k → (k ∈ path ↔ k ∈ path')) :
    (h.unfoldBelow path v).displayPieces = (h.unfoldBelow path' v).displayPieces := by
  rw [← Tree.displayPieces_forgetLevels, forgetLevels_unfoldBelow_congr hp,
    Tree.displayPieces_forgetLevels]

/--
What a value contributes to the leaves of a list: below a path of open lists, `leaves` gives
the texts of its leaves from left to right.
-/
structure LeafRules (h : Heap) (leaves : List ListId → Value → List String) : Prop where
  null : ∀ path, leaves path .null = [""]
  /-- A list that is already open on its own path is cut. -/
  cut : ∀ path l, l ∈ path → leaves path (.list l) = [""]
  empty : ∀ path l, h.elements l = [] → leaves path (.list l) = [""]
  spliced : ∀ path l, l ∉ path → h.elements l ≠ [] →
    leaves path (.list l) = (h.elements l).flatMap (leaves (l :: path))
  other : ∀ path v, v ≠ .null → (∀ l, v ≠ .list l) → leaves path v = [h.display v]

theorem leafRules_unfoldBelow (h : Heap) :
    h.LeafRules fun path v => (h.unfoldBelow path v).leafTexts where
  null path := by simp [unfoldBelow, Tree.leafTexts]
  cut path l hl := by simp [unfoldBelow_of_mem hl, Tree.leafTexts]
  empty path l he := by
    by_cases hl : l ∈ path
    · simp [unfoldBelow_of_mem hl, Tree.leafTexts]
    · simp [unfoldBelow_of_notMem hl, he, Tree.leafTexts]
  spliced path l hl he := by
    rw [unfoldBelow_of_notMem hl, Tree.leafTexts, List.flatMap_map]
    simpa using he
  other path v hn hv := by
    rw [display_eq_displayText, unfold]
    cases v with
    | null => exact absurd rfl hn
    | list l => exact absurd rfl (hv l)
    | _ => simp [unfoldBelow, Tree.displayText, Tree.placeText, Tree.leafTexts]

/--
A list is written for readers, whatever it contains, as the leaves of its tree with commas
between them. Nesting leaves no trace, and an empty list is the empty text.
-/
theorem display_list_eq_join_leaves (h : Heap) (l : ListId) :
    (∀ depth, h.listCount < depth →
      (h.displayWalk depth (.list l)).run [] = some (h.display (.list l), [])) ∧
    h.display (.list l) = ",".intercalate (h.unfold (.list l)).leafTexts ∧
    (h.LeafRules fun path v => (h.unfoldBelow path v).leafTexts) ∧
    (h.elements l = [] → h.display (.list l) = "") := by
  have hjoin : h.display (.list l) = ",".intercalate (h.unfold (.list l)).leafTexts := by
    rw [display_eq_displayText, unfold, displayText_unfoldBelow_list, Tree.placeText]
  refine ⟨?_, hjoin, h.leafRules_unfoldBelow, ?_⟩
  · intro depth hd
    rw [display_eq_displayText]
    exact h.displayWalk_returns_tree (.list l) (Nat.lt_of_le_of_lt (h.unopened_le _) hd)
  · intro he
    rw [hjoin, unfold, h.leafRules_unfoldBelow.empty [] l he, String.intercalate_singleton]

/-- A list with a null, an empty list, itself and a text, and the empty list. -/
def gapsHeap : Heap := ⟨#[[.null, .list ⟨1⟩, .list ⟨0⟩, .text "a"], []]⟩

/-- Each of the first three leaves its place empty. -/
theorem display_list_eq_join_leaves_gaps :
    gapsHeap.listCount < 3 ∧
      (gapsHeap.displayWalk 3 (.list ⟨0⟩)).run [] = some (gapsHeap.display (.list ⟨0⟩), []) ∧
      gapsHeap.display (.list ⟨0⟩) = ",".intercalate ["", "", "", "a"] ∧
      gapsHeap.elements ⟨1⟩ = [] ∧ gapsHeap.display (.list ⟨1⟩) = "" := by
  obtain ⟨hends, hjoin, hrules, -⟩ := display_list_eq_join_leaves gapsHeap ⟨0⟩
  obtain ⟨-, -, -, hempty⟩ := display_list_eq_join_leaves gapsHeap ⟨1⟩
  refine ⟨by decide, hends 3 (by decide), ?_, rfl, hempty rfl⟩
  have hleaves := hrules.spliced [] ⟨0⟩ List.not_mem_nil (by decide)
  have hcut := hrules.cut [⟨0⟩] ⟨0⟩ List.mem_cons_self
  have hnone := hrules.empty [⟨0⟩] ⟨1⟩ rfl
  have htext := hrules.other [⟨0⟩] (.text "a") (by decide) (by simp)
  rw [hjoin, unfold, hleaves]
  change ",".intercalate ([Value.null, .list ⟨1⟩, .list ⟨0⟩, .text "a"].flatMap _) = _
  simp only [List.flatMap_cons, List.flatMap_nil, hrules.null, hnone, hcut, htext]
  rfl

end Heap

end PageScript
