import PageScript.Proofs.Bisimulation
import PageScript.Proofs.Texts

/-!
# The marks of walks

Every walk, at any marks, ends and leaves the marks as it found them, also if the sink that it
writes to refuses a piece. What it answers or puts depends on the marks of its own kind only. Hence
walks do not disturb each other: a walk that is repeated gives the same answer, and a list that
occurs several times in another, and is not being written itself, is written in full each time. A
list that is being written is cut wherever it occurs inside.
-/

namespace PageScript

/-- The kinds of walks, each with its own marks. -/
inductive WalkKind where
  | display
  | inspect
  | compare

def Mark.kind : Mark → WalkKind
  | .displaying _ => .display
  | .inspecting _ => .inspect
  | .comparing _ _ => .compare

/-- Marks that are the same as far as one kind of walk is concerned. -/
def Marks.Agree (kind : WalkKind) (marks marks' : Marks) : Prop :=
  ∀ mark : Mark, mark.kind = kind → (mark ∈ marks ↔ mark ∈ marks')

namespace Walk

variable {α : Type} {kind : WalkKind} {bound : Nat} {walk : Nat → Walk α} {answer : Marks → α}

/--
A walk of a kind, by the depth it is given, with its answer at any marks. No depth above the
bound is too small, and none changes the answer.
-/
structure Settles (kind : WalkKind) (bound : Nat) (walk : Nat → Walk α) (answer : Marks → α) :
    Prop where
  /-- The walk ends, and the marks are as they were. -/
  returns : ∀ marks depth, bound < depth → (walk depth).run marks = some (answer marks, marks)
  /-- Marks of other kinds have no influence. -/
  own_marks : ∀ marks marks', Marks.Agree kind marks marks' → answer marks = answer marks'
  /-- A second walk after the first finds what the first found. -/
  repeated : ∀ marks depth, bound < depth →
    StateT.run (do return (← walk depth, ← walk depth)) marks =
      some ((answer marks, answer marks), marks)

theorem settles_of_returns
    (hr : ∀ marks depth, bound < depth → (walk depth).Returns marks (answer marks))
    (ho : ∀ marks marks', Marks.Agree kind marks marks' → answer marks = answer marks') :
    Settles kind bound walk answer where
  returns := hr
  own_marks := ho
  repeated marks depth hd := (hr marks depth hd).bind ((hr marks depth hd).map (answer marks, ·))

end Walk

namespace Writing

variable {kind : WalkKind} {bound : Nat}
  {writing : ∀ ε σ : Type, Sink ε σ → Nat → Writing ε σ Unit} {pieces : Marks → List String}

/--
A writing of a kind, to any sink and by the depth it is given, with the pieces that it puts at any
marks.
-/
structure Settles (kind : WalkKind) (bound : Nat)
    (writing : ∀ ε σ : Type, Sink ε σ → Nat → Writing ε σ Unit) (pieces : Marks → List String) :
    Prop where
  /-- The writing ends, refused or not, and the marks are as they were. -/
  returns : ∀ {ε σ : Type} (sink : Sink ε σ) (s : σ) (marks : Marks) (depth : Nat), bound < depth →
    StateT.run ((writing ε σ sink depth).run s) marks =
      some (sink.putAll (pieces marks) s, marks)
  /-- Marks of other kinds have no influence. -/
  own_marks : ∀ marks marks', Marks.Agree kind marks marks' → pieces marks = pieces marks'
  /-- After a first writing, refused or not, a second one to any sink puts the same pieces. -/
  repeated : ∀ {ε σ ε' σ' : Type} (sink : Sink ε σ) (s : σ) (sink' : Sink ε' σ') (s' : σ')
    (marks : Marks) (depth : Nat), bound < depth →
    StateT.run (do
        return (← (writing ε σ sink depth).run s, ← (writing ε' σ' sink' depth).run s')) marks =
      some ((sink.putAll (pieces marks) s, sink'.putAll (pieces marks) s'), marks)

theorem settles_of_puts
    (hp : ∀ {ε σ : Type} (sink : Sink ε σ) (marks : Marks) (depth : Nat), bound < depth →
      Puts sink (writing ε σ sink depth) marks (pieces marks))
    (ho : ∀ marks marks', Marks.Agree kind marks marks' → pieces marks = pieces marks') :
    Settles kind bound writing pieces where
  returns sink s marks depth hd := hp sink marks depth hd s
  own_marks := ho
  repeated sink s sink' s' marks depth hd :=
    (hp sink marks depth hd s).bind ((hp sink' marks depth hd s').map _)

end Writing

namespace Heap

open Marks (displayed inspected Compared mem_displayed_iff mem_inspected_iff)

variable {h : Heap}

theorem mem_displayed_iff_of_agree {marks marks' : Marks} (ha : Marks.Agree .display marks marks')
    (l : ListId) : l ∈ displayed marks ↔ l ∈ displayed marks' := by
  rw [mem_displayed_iff, mem_displayed_iff]
  exact ha (.displaying l) rfl

theorem mem_inspected_iff_of_agree {marks marks' : Marks} (ha : Marks.Agree .inspect marks marks')
    (l : ListId) : l ∈ inspected marks ↔ l ∈ inspected marks' := by
  rw [mem_inspected_iff, mem_inspected_iff]
  exact ha (.inspecting l) rfl

theorem displayTo_settles (h : Heap) (v : Value) :
    Writing.Settles .display h.listCount (fun _ _ sink depth => h.displayTo sink depth v)
      fun marks => (h.unfoldBelow (displayed marks) v).displayPieces := by
  apply Writing.settles_of_puts
  · intro ε σ sink marks depth hd
    exact h.displayTo_puts_tree v (Nat.lt_of_le_of_lt (h.unopened_le _) hd)
  · intro marks marks' ha
    exact displayPieces_unfoldBelow_congr fun k _ => mem_displayed_iff_of_agree ha k

theorem inspectTo_settles [CharacterSet] (h : Heap) (v : Value) :
    Writing.Settles .inspect h.listCount (fun _ _ sink depth => h.inspectTo sink depth v)
      fun marks => (h.unfoldBelow (inspected marks) v).inspectPieces := by
  apply Writing.settles_of_puts
  · intro ε σ sink marks depth hd
    exact h.inspectTo_puts_tree v (Nat.lt_of_le_of_lt (h.unopened_le _) hd)
  · intro marks marks' ha
    exact inspectPieces_unfoldBelow_congr fun k _ => mem_inspected_iff_of_agree ha k

theorem inspectListTo_settles [CharacterSet] (h : Heap) (l : ListId) :
    Writing.Settles .inspect h.listCount
      (fun _ _ sink depth => h.inspectListTo sink (h.inspectTo sink depth) l)
      fun marks => h.listPiecesBelow (inspected marks) l := by
  apply Writing.settles_of_puts
  · intro ε σ sink marks depth hd
    exact h.inspectListTo_puts_of_le marks l (Nat.le_of_lt hd)
  · intro marks marks' ha
    exact listPiecesBelow_congr fun k _ => mem_inspected_iff_of_agree ha k

theorem equalWalk_settles (h : Heap) (v w : Value) :
    ∃ answer, Walk.Settles .compare (h.listCount * h.listCount) (h.equalWalk · v w) answer ∧
      ∀ marks, answer marks = true ↔ h.EqualUpTo (Compared marks) v w := by
  classical
  refine ⟨fun marks => decide (h.EqualUpTo (Compared marks) v w),
    Walk.settles_of_returns ?_ ?_, fun marks => decide_eq_true_iff⟩
  · intro marks depth hd
    obtain ⟨b, hb, hiff⟩ := h.equalWalk_decides_of_lt marks v w hd
    have heq : decide (h.EqualUpTo (Compared marks) v w) = b := by
      rw [Bool.eq_iff_iff, hiff, decide_eq_true_iff]
    rwa [heq]
  · intro marks marks' ha
    have hsame : Compared marks = Compared marks' := by
      funext a b
      exact propext (ha (.comparing a b) rfl)
    simp only [hsame]

/--
How the elements of a list `p` that is not being written are written. There are pieces for each. A
list that is being written, as `p` itself, leaves those of a cut. Wherever any other list `l`
occurs, it is written in full, with the same pieces: they are made from those of all its elements,
each written as by a walk of its own. If `l` reaches no list that is being written, they make up the
text of `l` by itself.
-/
def WritesInFull (h : Heap) (mark : ListId → Mark)
    (value element : ∀ ε σ : Type, Sink ε σ → Nat → Value → Writing ε σ Unit)
    (whole : List (List String) → List String) (cut : List String) (alone : Value → String) :
    Prop :=
  ∀ (marks : Marks) (p : ListId), mark p ∉ marks → ∃ places : List (List String),
    (∀ (ε σ : Type) (sink : Sink ε σ) (depth : Nat), h.listCount < depth →
      Writing.Puts sink (value ε σ sink depth (.list p)) marks (whole places)) ∧
    places.length = (h.elements p).length ∧
    (∀ l, mark l ∈ mark p :: marks →
      ∀ i : Nat, (h.elements p)[i]? = some (Value.list l) → places[i]? = some cut) ∧
    ∀ l, mark l ∉ mark p :: marks → ∃ inner : List (List String),
      (∀ i : Nat, (h.elements p)[i]? = some (Value.list l) → places[i]? = some (whole inner)) ∧
      List.Forall₂ (fun v pieces => ∀ (ε σ : Type) (sink : Sink ε σ) (depth : Nat),
        h.listCount < depth →
          Writing.Puts sink (element ε σ sink depth v) (mark l :: mark p :: marks) pieces)
        (h.elements l) inner ∧
      ((∀ k, h.Reaches (.list l) k → mark k ∉ mark p :: marks) →
        String.join (whole inner) = alone (.list l))

/-- It is enough that each element has pieces at any marks and that a list is made of these. -/
theorem writesInFull_of_pieces {mark : ListId → Mark}
    {value element : ∀ ε σ : Type, Sink ε σ → Nat → Value → Writing ε σ Unit}
    {whole : List (List String) → List String} {cut : List String} {alone : Value → String}
    (pieces : Marks → Value → List String)
    (helement : ∀ (ε σ : Type) (sink : Sink ε σ) marks v depth, h.listCount < depth →
      Writing.Puts sink (element ε σ sink depth v) marks (pieces marks v))
    (hvalue : ∀ (ε σ : Type) (sink : Sink ε σ) marks l depth, h.listCount < depth →
      Writing.Puts sink (value ε σ sink depth (.list l)) marks (pieces marks (.list l)))
    (hcut : ∀ marks l, mark l ∈ marks → pieces marks (.list l) = cut)
    (hwhole : ∀ marks l, mark l ∉ marks →
      pieces marks (.list l) = whole ((h.elements l).map (pieces (mark l :: marks))))
    (halone : ∀ marks l, (∀ k, h.Reaches (.list l) k → mark k ∉ marks) →
      String.join (pieces marks (.list l)) = alone (.list l)) :
    h.WritesInFull mark value element whole cut alone := by
  intro marks p hp
  refine ⟨(h.elements p).map (pieces (mark p :: marks)), ?_, List.length_map .., ?_, ?_⟩
  · intro ε σ sink depth hd
    rw [← hwhole marks p hp]
    exact hvalue ε σ sink marks p depth hd
  · intro l hl i hi
    rw [List.getElem?_map, hi, Option.map_some, hcut _ l hl]
  · intro l hl
    refine ⟨(h.elements l).map (pieces (mark l :: mark p :: marks)), ?_, ?_, ?_⟩
    · intro i hi
      rw [List.getElem?_map, hi, Option.map_some, hwhole _ l hl]
    · rw [List.forall₂_map_right_iff, List.forall₂_same]
      intro v _ ε σ sink depth hd
      exact helement ε σ sink _ v depth hd
    · intro hreach
      rw [← hwhole _ l hl]
      exact halone _ l hreach

theorem display_writesInFull (h : Heap) :
    h.WritesInFull .displaying (fun _ _ => h.displayTo)
      (fun _ _ sink depth v => if v.isNull then pure () else h.displayTo sink depth v)
      (separate ",") [] h.display := by
  have hwalk : ∀ {ε σ : Type} (sink : Sink ε σ) marks v depth, h.listCount < depth →
      Writing.Puts sink (h.displayTo sink depth v) marks
        (h.unfoldBelow (displayed marks) v).displayPieces := by
    intro ε σ sink marks v depth hd
    exact h.displayTo_puts_tree v (Nat.lt_of_le_of_lt (h.unopened_le _) hd)
  refine writesInFull_of_pieces (fun marks v => (h.unfoldBelow (displayed marks) v).placePieces)
    ?_ ?_ ?_ ?_ ?_
  · intro ε σ sink marks v depth hd
    exact element_puts (hwalk sink marks v depth hd)
  · intro ε σ sink marks l depth hd
    rw [← displayPieces_unfoldBelow_list]
    exact hwalk sink marks (.list l) depth hd
  · intro marks l hl
    rw [unfoldBelow_of_mem (mem_displayed_iff.mpr hl), Tree.placePieces]
  · intro marks l hl
    exact placePieces_unfoldBelow_list fun hm => hl (mem_displayed_iff.mp hm)
  · intro marks l hreach
    rw [← displayPieces_unfoldBelow_list, display_eq_displayText, ← Tree.join_displayPieces]
    congr 1
    apply displayPieces_unfoldBelow_congr
    intro k hk
    rw [mem_displayed_iff]
    exact iff_of_false (hreach k hk) List.not_mem_nil

/-- The pieces of a list for inspection, from those of its elements. -/
def wholePieces (places : List (List String)) : List String :=
  ["List", "(", "Lista(", "["] ++ (separate ", " places ++ ["]", ")", ")"])

theorem inspect_writesInFull [CharacterSet] (h : Heap) :
    h.WritesInFull .inspecting (fun _ _ => h.inspectTo) (fun _ _ => h.inspectTo) wholePieces
      ["List", "(", "Lista([...])", ")"] h.inspect := by
  have hwalk : ∀ (ε σ : Type) (sink : Sink ε σ) marks v depth, h.listCount < depth →
      Writing.Puts sink (h.inspectTo sink depth v) marks
        (h.unfoldBelow (inspected marks) v).inspectPieces := by
    intro ε σ sink marks v depth hd
    exact h.inspectTo_puts_tree v (Nat.lt_of_le_of_lt (h.unopened_le _) hd)
  refine writesInFull_of_pieces (fun marks v => (h.unfoldBelow (inspected marks) v).inspectPieces)
    hwalk (fun ε σ sink marks l => hwalk ε σ sink marks (.list l)) ?_ ?_ ?_
  · intro marks l hl
    rw [unfoldBelow_of_mem (mem_inspected_iff.mpr hl), Tree.inspectPieces]
  · intro marks l hl
    rw [unfoldBelow_of_notMem fun hm => hl (mem_inspected_iff.mp hm), Tree.inspectPieces,
      List.map_map]
    rfl
  · intro marks l hreach
    rw [inspect_eq_inspectText, ← Tree.join_inspectPieces]
    congr 1
    apply inspectPieces_unfoldBelow_congr
    intro k hk
    rw [mem_inspected_iff]
    exact iff_of_false (hreach k hk) List.not_mem_nil

/--
Every walk, whatever is marked, ends with the marks as they were and by the marks of its own
kind, also where what it comes to is marked already, and also where the sink that it writes to
refuses a piece. Repeating it gives the same answer. Lists that are not being written are written in
full wherever they occur.
-/
theorem walks_give_back_marks [CharacterSet] (h : Heap) :
    (∀ v, ∃ pieces, Writing.Settles .display h.listCount
        (fun _ _ sink depth => h.displayTo sink depth v) pieces ∧
      String.join (pieces []) = h.display v ∧
      ∀ l marks, v = .list l → .displaying l ∈ marks → pieces marks = []) ∧
    (∀ v, ∃ pieces, Writing.Settles .inspect h.listCount
        (fun _ _ sink depth => h.inspectTo sink depth v) pieces ∧
      String.join (pieces []) = h.inspect v ∧
      ∀ l marks, v = .list l → .inspecting l ∈ marks →
        pieces marks = ["List", "(", "Lista([...])", ")"]) ∧
    (∀ l, ∃ pieces, Writing.Settles .inspect h.listCount
        (fun _ _ sink depth => h.inspectListTo sink (h.inspectTo sink depth) l) pieces ∧
      String.join (pieces []) = h.inspectList l ∧
      ∀ marks, .inspecting l ∈ marks → pieces marks = ["Lista([...])"]) ∧
    (∀ v w, ∃ answer,
      Walk.Settles .compare (h.listCount * h.listCount) (h.equalWalk · v w) answer ∧
      answer [] = h.equal v w ∧
      ∀ a b marks, v = .list a → w = .list b → .comparing a b ∈ marks → answer marks = true) ∧
    h.WritesInFull .displaying (fun _ _ => h.displayTo)
      (fun _ _ sink depth v => if v.isNull then pure () else h.displayTo sink depth v)
      (separate ",") [] h.display ∧
    h.WritesInFull .inspecting (fun _ _ => h.inspectTo) (fun _ _ => h.inspectTo) wholePieces
      ["List", "(", "Lista([...])", ")"] h.inspect := by
  refine ⟨?_, ?_, ?_, ?_, h.display_writesInFull, h.inspect_writesInFull⟩
  · intro v
    refine ⟨_, h.displayTo_settles v, ?_, ?_⟩
    · rw [Tree.join_displayPieces, display_eq_displayText]
      rfl
    · rintro l marks rfl hm
      rw [displayPieces_unfoldBelow_list, unfoldBelow_of_mem (mem_displayed_iff.mpr hm),
        Tree.placePieces]
  · intro v
    refine ⟨_, h.inspectTo_settles v, ?_, ?_⟩
    · rw [Tree.join_inspectPieces, inspect_eq_inspectText]
      rfl
    · rintro l marks rfl hm
      rw [unfoldBelow_of_mem (mem_inspected_iff.mpr hm), Tree.inspectPieces]
  · intro l
    refine ⟨_, h.inspectListTo_settles l, (h.inspectList_eq_join l).symm, ?_⟩
    intro marks hm
    rw [listPiecesBelow, if_pos (mem_inspected_iff.mpr hm)]
  · intro v w
    obtain ⟨answer, hsettles, hiff⟩ := h.equalWalk_settles v w
    refine ⟨answer, hsettles, ?_, ?_⟩
    · rw [Bool.eq_iff_iff, hiff, equalUpTo_unmarked_iff, equal_iff_related]
    · rintro a b marks rfl rfl hm
      exact (hiff marks).mpr (.list (.inr hm))

/-- A list that holds a text and itself, and a list that holds it twice. -/
def siblingsHeap : Heap := ⟨#[[.text "a", .list ⟨0⟩], [.list ⟨0⟩, .list ⟨0⟩]]⟩

theorem eq_of_siblingsHeap_reaches {v : Value} {k : ListId} (hk : siblingsHeap.Reaches v k) :
    v = .list ⟨0⟩ → k = ⟨0⟩ := by
  induction hk with
  | here l => exact Value.list.inj
  | @inside l k v hv hreach ih =>
    rintro ⟨⟩
    rcases List.mem_pair.mp (show v ∈ [Value.text "a", .list ⟨0⟩] from hv) with rfl | rfl
    · cases hreach
    · exact ih rfl

/-- Takes as many pieces as are left, and refuses the next. -/
def countdown : Sink Unit Nat := fun _ left =>
  match left with
  | 0 => (.error (), 0)
  | left + 1 => (.ok (), left)

/--
The list by itself, while it is being written; twice in the other one; and there again, for a sink
that refuses the first piece, which is put when both lists are marked.
-/
theorem walks_give_back_marks_siblings :
    siblingsHeap.listCount < 3 ∧
      StateT.run ((siblingsHeap.displayTo .buffer 3 (.list ⟨0⟩)).run "b") [.displaying ⟨0⟩] =
        some ((.ok (), "b"), [.displaying ⟨0⟩]) ∧
      (∃ first second : List String,
        Writing.Puts .buffer (siblingsHeap.displayTo .buffer 3 (.list ⟨1⟩)) []
          (first ++ "," :: second) ∧
        String.join first = siblingsHeap.display (.list ⟨0⟩) ∧ second = first) ∧
      StateT.run ((siblingsHeap.displayTo countdown 3 (.list ⟨1⟩)).run 0) [] =
        some ((.error (), 0), []) := by
  obtain ⟨hdisplay, -, -, -, hfull, -⟩ := walks_give_back_marks siblingsHeap
  obtain ⟨pieces, hsettles, -, hmarked⟩ := hdisplay (.list ⟨0⟩)
  obtain ⟨places, hputs, hlength, -, hplaces⟩ := hfull [] ⟨1⟩ List.not_mem_nil
  obtain ⟨inner, hinner, -, halone⟩ := hplaces ⟨0⟩ (by decide)
  have hwhole := halone fun k hk => by
    rw [eq_of_siblingsHeap_reaches hk rfl]
    decide
  obtain ⟨first, second, rfl⟩ := List.length_eq_two.mp hlength
  have hfirst := Option.some.inj (hinner 0 rfl)
  have hsecond := Option.some.inj (hinner 1 rfl)
  have hpieces : separate "," [first, second] = first ++ "," :: second := by simp [separate]
  rw [hpieces] at hputs
  refine ⟨by decide, ?_, ⟨first, second, hputs _ _ _ 3 (by decide), ?_, ?_⟩, ?_⟩
  · rw [hsettles.returns _ _ _ 3 (by decide), hmarked ⟨0⟩ _ rfl List.mem_cons_self]
    rfl
  · rw [hfirst, hwhole]
  · rw [hfirst, hsecond]
  · refine (hputs _ _ countdown 3 (by decide) 0).trans ?_
    cases first <;> rfl

/-- A list that holds itself twice. -/
def twinHeap : Heap := ⟨#[[.list ⟨0⟩, .list ⟨0⟩]]⟩

/-- It leaves both places empty, where its text in full would hold its whole text twice. -/
theorem twins_not_in_full :
    twinHeap.display (.list ⟨0⟩) = "," ∧
      twinHeap.display (.list ⟨0⟩) ≠
        ",".intercalate ((twinHeap.elements ⟨0⟩).map twinHeap.display) := by
  have htext : twinHeap.display (.list ⟨0⟩) = "," := rfl
  refine ⟨htext, ?_⟩
  rw [show twinHeap.elements ⟨0⟩ = [.list ⟨0⟩, .list ⟨0⟩] from rfl, List.map_cons, List.map_cons,
    List.map_nil, htext]
  decide

end Heap

end PageScript
