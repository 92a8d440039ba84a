import Mathlib.Data.Set.Function
import PageScript.Proofs.EqualityLaws
import PageScript.Proofs.InspectedTrees

/-!
# Other handles for the same lists

Handles are what walks mark, and lists that no value reaches take up handles too. Both are without
influence on the results. If the lists that some values reach are found in another heap under other
handles, a walk there is in step with the walk here: it meets its marks where this one does, under
the other handles, and ends with the same answer.

Main statement: the texts of values, their equality and their positions in lists are the same in
both heaps.
-/

namespace PageScript

variable {f : ListId → ListId} {P : ListId → Prop}

namespace Mark

/-- The mark with other handles. -/
def rename (f : ListId → ListId) : Mark → Mark
  | .displaying l => .displaying (f l)
  | .inspecting l => .inspecting (f l)
  | .comparing a b => .comparing (f a) (f b)

/-- The mark is on lists of `P`. -/
def On (P : ListId → Prop) : Mark → Prop
  | .displaying l => P l
  | .inspecting l => P l
  | .comparing a b => P a ∧ P b

theorem rename_inj (hf : Set.InjOn f {l | P l}) {m n : Mark} (hm : m.On P) (hn : n.On P)
    (heq : m.rename f = n.rename f) : m = n := by
  cases m with
  | displaying a =>
    cases n with
    | displaying b => rw [hf hm hn (displaying.inj heq)]
    | _ => cases heq
  | inspecting a =>
    cases n with
    | inspecting b => rw [hf hm hn (inspecting.inj heq)]
    | _ => cases heq
  | comparing a b =>
    cases n with
    | comparing c d =>
      obtain ⟨hac, hbd⟩ := comparing.inj heq
      rw [hf hm.1 hn.1 hac, hf hm.2 hn.2 hbd]
    | _ => cases heq

end Mark

namespace Marks

variable {mark : Mark} {marks : Marks}

theorem mem_map_rename_iff (hf : Set.InjOn f {l | P l}) (hmark : mark.On P)
    (hmarks : ∀ m ∈ marks, m.On P) : mark.rename f ∈ marks.map (Mark.rename f) ↔ mark ∈ marks := by
  refine ⟨fun hmem => ?_, List.mem_map_of_mem⟩
  obtain ⟨m, hm, heq⟩ := List.mem_map.mp hmem
  rwa [← Mark.rename_inj hf (hmarks m hm) hmark heq]

theorem map_rename_erase (hf : Set.InjOn f {l | P l}) (hmark : mark.On P)
    (hmarks : ∀ m ∈ marks, m.On P) :
    (marks.erase mark).map (Mark.rename f) = (marks.map (Mark.rename f)).erase (mark.rename f) := by
  induction marks with
  | nil => rfl
  | cons m marks ih =>
    obtain ⟨hm, hrest⟩ := List.forall_mem_cons.mp hmarks
    by_cases heq : m = mark
    · subst heq
      rw [List.erase_cons_head, List.map_cons, List.erase_cons_head]
    · have hne : m.rename f ≠ mark.rename f := fun hr => heq (Mark.rename_inj hf hm hmark hr)
      rw [List.erase_cons_tail (by simpa using heq), List.map_cons, List.map_cons,
        List.erase_cons_tail (by simpa using hne), ih hrest]

end Marks

namespace Walk

variable {α α' β β' : Type}

theorem run_once_of_notMem {mark : Mark} {marks : Marks} (hm : mark ∉ marks) (again : α)
    (walk : Walk α) : (once mark again walk).run marks =
      (walk.run (mark :: marks)).map fun r => (r.1, r.2.erase mark) := by
  cases hr : walk.run (mark :: marks) <;> simp [once, hm, hr]

/--
From the same marks under other handles, both walks run out of depth, or both end with the same
answer and the same marks, again under other handles.
-/
def InStep (f : ListId → ListId) (P : ListId → Prop) (walk walk' : Walk α) : Prop :=
  ∀ marks : Marks, (∀ m ∈ marks, m.On P) →
    (walk.run marks = none ∧ walk'.run (marks.map (Mark.rename f)) = none) ∨
    ∃ (a : α) (after : Marks), (∀ m ∈ after, m.On P) ∧ walk.run marks = some (a, after) ∧
      walk'.run (marks.map (Mark.rename f)) = some (a, after.map (Mark.rename f))

theorem inStep_pure (a : α) : InStep f P (pure a) (pure a) :=
  fun marks hmarks => .inr ⟨a, marks, hmarks, rfl, rfl⟩

theorem inStep_failure : InStep f P (failure : Walk α) failure := fun _ _ => .inl ⟨rfl, rfl⟩

theorem InStep.bind {walk walk' : Walk α} {next next' : α → Walk β} (hw : InStep f P walk walk')
    (hn : ∀ a, InStep f P (next a) (next' a)) : InStep f P (walk >>= next) (walk' >>= next') := by
  intro marks hmarks
  rw [StateT.run_bind, StateT.run_bind]
  rcases hw marks hmarks with ⟨hnone, hnone'⟩ | ⟨a, after, hafter, hsome, hsome'⟩
  · rw [hnone, hnone']
    exact .inl ⟨rfl, rfl⟩
  · rw [hsome, hsome']
    exact hn a after hafter

theorem InStep.map {walk walk' : Walk α} (g : α → β) (hw : InStep f P walk walk') :
    InStep f P (do return g (← walk)) (do return g (← walk')) :=
  hw.bind fun a => inStep_pure (g a)

/-- A mark is met by both walks or by neither, as no two lists get one handle. -/
theorem InStep.once (hf : Set.InjOn f {l | P l}) {walk walk' : Walk α} (mark : Mark)
    (hmark : mark.On P) (again : α) (hw : InStep f P walk walk') :
    InStep f P (Walk.once mark again walk) (Walk.once (mark.rename f) again walk') := by
  intro marks hmarks
  have hmem := Marks.mem_map_rename_iff hf hmark hmarks
  by_cases hset : mark ∈ marks
  · exact .inr ⟨again, marks, hmarks, returns_once_again hset again walk,
      returns_once_again (hmem.mpr hset) again walk'⟩
  · rw [run_once_of_notMem hset, run_once_of_notMem (mt hmem.mp hset), ← List.map_cons]
    rcases hw (mark :: marks) (List.forall_mem_cons.mpr ⟨hmark, hmarks⟩) with
      ⟨hnone, hnone'⟩ | ⟨a, after, hafter, hsome, hsome'⟩
    · rw [hnone, hnone']
      exact .inl ⟨rfl, rfl⟩
    · rw [hsome, hsome']
      refine .inr ⟨a, after.erase mark, fun m hm => hafter m (List.mem_of_mem_erase hm), rfl, ?_⟩
      rw [Marks.map_rename_erase hf hmark hafter]
      rfl

theorem inStep_forall₂ {walk : α → β → Walk Bool} {walk' : α' → β' → Walk Bool} {g : α → α'}
    {k : β → β'} {xs : List α} {ys : List β}
    (hw : ∀ x ∈ xs, ∀ y ∈ ys, InStep f P (walk x y) (walk' (g x) (k y))) :
    InStep f P (forall₂ walk xs ys) (forall₂ walk' (xs.map g) (ys.map k)) := by
  induction xs generalizing ys with
  | nil =>
    cases ys with
    | nil => exact inStep_pure true
    | cons y ys => exact inStep_pure false
  | cons x xs ih =>
    cases ys with
    | nil => exact inStep_pure false
    | cons y ys =>
      refine (hw x List.mem_cons_self y List.mem_cons_self).bind fun b => ?_
      cases b with
      | false => exact inStep_pure false
      | true =>
        exact ih fun x' hx y' hy => hw x' (List.mem_cons_of_mem x hx) y' (List.mem_cons_of_mem y hy)

theorem InStep.answer_eq {walk walk' : Walk α} {a a' : α} (hw : InStep f P walk walk')
    (ha : walk.Returns [] a) (ha' : walk'.Returns [] a') : a' = a := by
  unfold Returns at ha ha'
  rcases hw [] (by simp) with ⟨hnone, -⟩ | ⟨b, after, -, hsome, hsome'⟩
  · rw [hnone] at ha
    cases ha
  · rw [List.map_nil, ha'] at hsome'
    rw [ha] at hsome
    cases hsome
    cases hsome'
    rfl

end Walk

namespace Writing

variable {ε σ α α' : Type} {writing writing' next next' again again' : Writing ε σ Unit}

/-- From every state of the sink, both writings are walks in step. -/
def InStep (f : ListId → ListId) (P : ListId → Prop) (writing writing' : Writing ε σ Unit) : Prop :=
  ∀ s, Walk.InStep f P (writing.run s) (writing'.run s)

theorem inStep_pure : InStep f P (pure () : Writing ε σ Unit) (pure ()) :=
  fun s => Walk.inStep_pure (Except.ok (), s)

theorem inStep_put (sink : Sink ε σ) (piece : String) :
    InStep f P (put sink piece) (put sink piece) :=
  fun s => Walk.inStep_pure (sink piece s)

theorem inStep_outOfDepth : InStep f P (outOfDepth : Writing ε σ Unit) outOfDepth :=
  fun _ => Walk.inStep_failure

theorem InStep.seq (h : InStep f P writing writing') (hnext : InStep f P next next') :
    InStep f P (writing >>= fun _ => next) (writing' >>= fun _ => next') := by
  intro s
  rw [run_seq, run_seq]
  apply (h s).bind
  intro r
  obtain ⟨e | _, t⟩ := r
  · exact Walk.inStep_pure _
  · exact hnext t

theorem InStep.once (hf : Set.InjOn f {l | P l}) (mark : Mark) (hmark : mark.On P)
    (hagain : InStep f P again again') (h : InStep f P writing writing') :
    InStep f P (once mark again writing) (once (mark.rename f) again' writing') := by
  intro s
  have hinside : Walk.InStep f P (some <$> writing.run s) (some <$> writing'.run s) := by
    rw [map_eq_pure_bind, map_eq_pure_bind]
    exact (h s).map some
  apply (hinside.once hf mark hmark none).bind
  intro r
  cases r with
  | none => exact hagain s
  | some r => exact Walk.inStep_pure r

theorem inStep_forM {write : α → Writing ε σ Unit} {write' : α' → Writing ε σ Unit} {g : α → α'}
    {xs : List α} (hx : ∀ x ∈ xs, InStep f P (write x) (write' (g x))) :
    InStep f P (xs.forM write) ((xs.map g).forM write') := by
  induction xs with
  | nil => exact inStep_pure
  | cons x xs ih =>
    obtain ⟨hhead, hrest⟩ := List.forall_mem_cons.mp hx
    exact hhead.seq (ih hrest)

theorem inStep_separated {sink : Sink ε σ} {separator : String} {write : α → Writing ε σ Unit}
    {write' : α' → Writing ε σ Unit} {g : α → α'} {xs : List α}
    (hx : ∀ x ∈ xs, InStep f P (write x) (write' (g x))) :
    InStep f P (separated sink separator write xs)
      (separated sink separator write' (xs.map g)) := by
  cases xs with
  | nil => exact inStep_pure
  | cons x xs =>
    obtain ⟨hhead, hrest⟩ := List.forall_mem_cons.mp hx
    apply hhead.seq
    apply inStep_forM
    exact fun y hy => (inStep_put sink separator).seq (hrest y hy)

theorem InStep.wrapped (h : InStep f P writing writing') (sink : Sink ε σ) (name : String) :
    InStep f P (wrapped sink name writing) (wrapped sink name writing') :=
  (inStep_put sink name).seq ((inStep_put sink "(").seq (h.seq (inStep_put sink ")")))

theorem InStep.text {writing writing' : Writing Empty String Unit}
    (h : InStep f P writing writing') : Walk.InStep f P writing.text writing'.text :=
  (h "").bind fun r => Walk.inStep_pure r.2

end Writing

namespace Value

theorem rename_of_ne_list {v : Value} (hv : ∀ l, v ≠ .list l) : v.rename f = v := by
  cases v with
  | list l => exact absurd rfl (hv l)
  | _ => rfl

theorem isNull_rename (v : Value) : (v.rename f).isNull = v.isNull := by
  cases v <;> rfl

end Value

namespace Heap

variable {h h' : Heap} {k l : ListId} {v w : Value} {vs : List Value}

section Leaves

open Writing (InStep inStep_put)

variable {ε σ : Type} (sink : Sink ε σ)

/-- What is not a list is written in the same pieces, whatever the heap. -/
theorem displayTo_leaf_inStep (depth : Nat) (hv : ∀ l, v ≠ .list l) :
    InStep f P (h.displayTo sink depth v) (h'.displayTo sink depth (v.rename f)) := by
  rw [Value.rename_of_ne_list hv]
  cases v with
  | list l => exact absurd rfl (hv l)
  | element id =>
    rw [displayTo, displayTo]
    exact (inStep_put sink _).seq ((inStep_put sink _).seq (inStep_put sink _))
  | _ =>
    rw [displayTo, displayTo]
    exact inStep_put sink _

theorem inspectTo_leaf_inStep [CharacterSet] (depth : Nat) (hv : ∀ l, v ≠ .list l) :
    InStep f P (h.inspectTo sink depth v) (h'.inspectTo sink depth (v.rename f)) := by
  rw [Value.rename_of_ne_list hv]
  cases v with
  | list l => exact absurd rfl (hv l)
  | element id =>
    rw [inspectTo, inspectTo]
    exact ((inStep_put sink _).wrapped sink _).wrapped sink _
  | null =>
    rw [inspectTo, inspectTo]
    exact inStep_put sink _
  | _ =>
    rw [inspectTo, inspectTo]
    exact (inStep_put sink _).wrapped sink _

end Leaves

namespace Embeds

variable (he : h.Embeds h' f P)
include he

theorem mem_elements (hl : P l) (hv : v ∈ h.elements l) : ∀ k, v = .list k → P k := by
  rintro k rfl
  exact he.closed l hl k hv

theorem of_reaches (hv : ∀ l, v = .list l → P l) (hl : h.Reaches v l) : P l := by
  induction hl with
  | here l => exact hv l rfl
  | inside hu _ ih => exact ih (he.mem_elements (hv _ rfl) hu)

theorem size_eq (hl : P l) : h'.size (f l) = h.size l := by
  rw [size, size, he.elements l hl, List.length_map]

theorem reaches_iff (hv : ∀ l, v = .list l → P l) :
    h'.Reaches (v.rename f) k ↔ ∃ l, h.Reaches v l ∧ f l = k := by
  constructor
  · intro hk
    generalize hr : v.rename f = v' at hk
    induction hk generalizing v with
    | here l' =>
      cases v <;> cases hr
      exact ⟨_, .here _, rfl⟩
    | inside hmem _ ih =>
      cases v <;> cases hr
      rename_i l
      rw [he.elements l (hv l rfl)] at hmem
      obtain ⟨u, hu, rfl⟩ := List.mem_map.mp hmem
      obtain ⟨a, ha, heq⟩ := ih (he.mem_elements (hv l rfl) hu) rfl
      exact ⟨a, .inside hu ha, heq⟩
  · rintro ⟨l, hl, rfl⟩
    induction hl with
    | here l => exact .here (f l)
    | inside hu _ ih =>
      have hin := hv _ rfl
      refine .inside ?_ (ih (he.mem_elements hin hu))
      rw [he.elements _ hin]
      exact List.mem_map_of_mem hu

variable (hf : Set.InjOn f {l | P l})
include hf

section Writings

open Writing (InStep inStep_put inStep_pure)

variable {ε σ : Type} (sink : Sink ε σ)

theorem displayTo_inStep (depth : Nat) (hv : ∀ l, v = .list l → P l) :
    InStep f P (h.displayTo sink depth v) (h'.displayTo sink depth (v.rename f)) := by
  induction depth generalizing v with
  | zero =>
    cases v with
    | list l => exact Writing.inStep_outOfDepth
    | _ => exact displayTo_leaf_inStep sink _ nofun
  | succ depth ih =>
    cases v with
    | list l =>
      have hl := hv l rfl
      rw [Value.rename, displayTo, displayTo, he.elements l hl]
      apply InStep.once hf (.displaying l) hl inStep_pure
      apply Writing.inStep_separated
      intro v hv
      rw [Value.isNull_rename]
      split
      · exact inStep_pure
      · exact ih (he.mem_elements hl hv)
    | _ => exact displayTo_leaf_inStep sink _ nofun

theorem inspectListTo_inStep {element element' : Value → Writing ε σ Unit} (hl : P l)
    (hv : ∀ v ∈ h.elements l, InStep f P (element v) (element' (v.rename f))) :
    InStep f P (h.inspectListTo sink element l) (h'.inspectListTo sink element' (f l)) := by
  rw [inspectListTo, inspectListTo, he.elements l hl]
  apply InStep.once hf (.inspecting l) hl (inStep_put sink _)
  apply (inStep_put sink _).seq
  apply (inStep_put sink _).seq
  apply (Writing.inStep_separated hv).seq
  exact (inStep_put sink _).seq (inStep_put sink _)

theorem inspectTo_inStep [CharacterSet] (depth : Nat) (hv : ∀ l, v = .list l → P l) :
    InStep f P (h.inspectTo sink depth v) (h'.inspectTo sink depth (v.rename f)) := by
  induction depth generalizing v with
  | zero =>
    cases v with
    | list l => exact Writing.inStep_outOfDepth
    | _ => exact inspectTo_leaf_inStep sink _ nofun
  | succ depth ih =>
    cases v with
    | list l =>
      have hl := hv l rfl
      rw [Value.rename, inspectTo, inspectTo]
      apply InStep.wrapped
      apply he.inspectListTo_inStep hf sink hl
      exact fun v hv => ih (he.mem_elements hl hv)
    | _ => exact inspectTo_leaf_inStep sink _ nofun

end Writings

theorem displayWalk_inStep (depth : Nat) (hv : ∀ l, v = .list l → P l) :
    Walk.InStep f P (h.displayWalk depth v) (h'.displayWalk depth (v.rename f)) :=
  (he.displayTo_inStep hf .buffer depth hv).text

theorem inspectWalk_inStep [CharacterSet] (depth : Nat) (hv : ∀ l, v = .list l → P l) :
    Walk.InStep f P (h.inspectWalk depth v) (h'.inspectWalk depth (v.rename f)) :=
  (he.inspectTo_inStep hf .buffer depth hv).text

theorem inspectListWalk_inStep [CharacterSet] (depth : Nat) (hl : P l) :
    Walk.InStep f P (h.inspectListWalk depth l) (h'.inspectListWalk depth (f l)) := by
  apply Writing.InStep.text
  apply he.inspectListTo_inStep hf .buffer hl
  exact fun v hv => he.inspectTo_inStep hf .buffer depth (he.mem_elements hl hv)

theorem equalWalk_inStep (depth : Nat) (hv : ∀ l, v = .list l → P l)
    (hw : ∀ l, w = .list l → P l) :
    Walk.InStep f P (h.equalWalk depth v w) (h'.equalWalk depth (v.rename f) (w.rename f)) := by
  induction depth generalizing v w with
  | zero =>
    cases v <;> cases w
    case list.list => exact Walk.inStep_failure
    all_goals exact Walk.inStep_pure _
  | succ depth ih =>
    cases v <;> cases w
    case list.list a b =>
      have ha := hv a rfl
      have hb := hw b rfl
      rw [Value.rename, Value.rename, equalWalk, equalWalk, he.size_eq ha, he.size_eq hb,
        he.elements a ha, he.elements b hb]
      refine .once hf (.comparing a b) ⟨ha, hb⟩ true ?_
      split
      · exact Walk.inStep_forall₂ fun v hv w hw =>
          ih (he.mem_elements ha hv) (he.mem_elements hb hw)
      · exact Walk.inStep_pure false
    all_goals exact Walk.inStep_pure _

theorem display_rename (hv : ∀ l, v = .list l → P l) :
    h'.display (v.rename f) = h.display v := by
  have hd : h.listCount < h.listCount + h'.listCount + 1 := by omega
  have hd' : h'.listCount < h.listCount + h'.listCount + 1 := by omega
  exact (he.displayWalk_inStep hf _ hv).answer_eq (h.displayWalk_returns v hd)
    (h'.displayWalk_returns _ hd')

theorem inspect_rename [CharacterSet] (hv : ∀ l, v = .list l → P l) :
    h'.inspect (v.rename f) = h.inspect v := by
  have hd : h.listCount < h.listCount + h'.listCount + 1 := by omega
  have hd' : h'.listCount < h.listCount + h'.listCount + 1 := by omega
  exact (he.inspectWalk_inStep hf _ hv).answer_eq (h.inspectWalk_returns v hd)
    (h'.inspectWalk_returns _ hd')

theorem inspectList_rename [CharacterSet] (hl : P l) : h'.inspectList (f l) = h.inspectList l := by
  rw [inspectList_eq_join, inspectList_eq_join]
  exact (he.inspectListWalk_inStep hf (h.listCount + h'.listCount) hl).answer_eq
    (h.inspectListWalk_returns l (by omega)) (h'.inspectListWalk_returns (f l) (by omega))

omit hf

theorem position?_rename (hl : P l) (hv : ∀ l, v = .list l → P l) :
    h'.position? (f l) (v.rename f) = h.position? l v := by
  have hequal : ∀ w ∈ h.elements l, h'.equal (w.rename f) (v.rename f) = h.equal w v :=
    fun w hw => he.equal_rename (he.mem_elements hl hw) hv
  rw [position?, position?, he.elements l hl, List.findIdx?_map]
  generalize h.elements l = ws at hequal
  induction ws with
  | nil => rfl
  | cons w ws ih =>
    obtain ⟨hhead, hrest⟩ := List.forall_mem_cons.mp hequal
    rw [List.findIdx?_cons, List.findIdx?_cons, ih hrest, Function.comp_apply, hhead]

end Embeds

/-- The lists that the values reach. -/
def Reached (h : Heap) (vs : List Value) (l : ListId) : Prop := ∃ v ∈ vs, h.Reaches v l

/--
No two lists that the values reach get one handle, and in the second heap the list with the new
handle holds the same, under new handles. Nothing is said of lists that no value reaches.
-/
structure Renames (h h' : Heap) (f : ListId → ListId) (vs : List Value) : Prop where
  injOn : Set.InjOn f {l | h.Reached vs l}
  elements : ∀ l, h.Reached vs l → h'.elements (f l) = (h.elements l).map (Value.rename f)

/-- Every result about the values is the same in both heaps, and the walks in the second end. -/
structure SameResults [CharacterSet] (h h' : Heap) (f : ListId → ListId) (vs : List Value) :
    Prop where
  display : ∀ v ∈ vs, h'.display (v.rename f) = h.display v
  inspect : ∀ v ∈ vs, h'.inspect (v.rename f) = h.inspect v
  inspectList : ∀ l, .list l ∈ vs → h'.inspectList (f l) = h.inspectList l
  equal : ∀ v ∈ vs, ∀ w ∈ vs, h'.equal (v.rename f) (w.rename f) = h.equal v w
  position : ∀ l, .list l ∈ vs → ∀ v ∈ vs,
    h'.position? (f l) (v.rename f) = h.position? l v
  indexOf : ∀ l, .list l ∈ vs → ∀ v ∈ vs, h'.indexOf (f l) (v.rename f) = h.indexOf l v
  displayWalk : ∀ v ∈ vs, ∀ depth, h'.listCount < depth →
    (h'.displayWalk depth (v.rename f)).run [] = some (h.display v, [])
  inspectWalk : ∀ v ∈ vs, ∀ depth, h'.listCount < depth →
    (h'.inspectWalk depth (v.rename f)).run [] = some (h.inspect v, [])
  equalWalk : ∀ v ∈ vs, ∀ w ∈ vs, ∀ depth, h'.listCount * h'.listCount < depth →
    (h'.equalWalk depth (v.rename f) (w.rename f)).run [] = some (h.equal v w, [])

theorem reached_of_mem (hv : v ∈ vs) : ∀ l, v = .list l → h.Reached vs l := by
  rintro l rfl
  exact ⟨.list l, hv, .here l⟩

namespace Renames

variable (hr : h.Renames h' f vs)
include hr

theorem embeds : h.Embeds h' f (h.Reached vs) where
  closed a ha k hk := by
    obtain ⟨v, hv, ha⟩ := ha
    exact ⟨v, hv, ha.step hk⟩
  elements := hr.elements

/-- What the values reach in one heap is what the renamed values reach in the other. -/
theorem bijOn :
    Set.BijOn f {l | h.Reached vs l} {l | h'.Reached (vs.map (Value.rename f)) l} := by
  refine ⟨?_, hr.injOn, ?_⟩
  · rintro l ⟨v, hv, hl⟩
    exact ⟨_, List.mem_map_of_mem hv, (hr.embeds.reaches_iff (reached_of_mem hv)).mpr ⟨l, hl, rfl⟩⟩
  · rintro k ⟨v', hv', hk⟩
    obtain ⟨v, hv, rfl⟩ := List.mem_map.mp hv'
    obtain ⟨l, hl, rfl⟩ := (hr.embeds.reaches_iff (reached_of_mem hv)).mp hk
    exact ⟨l, ⟨v, hv, hl⟩, rfl⟩

theorem sameResults [CharacterSet] : h.SameResults h' f vs where
  display v hv := hr.embeds.display_rename hr.injOn (reached_of_mem hv)
  inspect v hv := hr.embeds.inspect_rename hr.injOn (reached_of_mem hv)
  inspectList l hl := hr.embeds.inspectList_rename hr.injOn (reached_of_mem hl l rfl)
  equal v hv w hw := hr.embeds.equal_rename (reached_of_mem hv) (reached_of_mem hw)
  position l hl v hv := hr.embeds.position?_rename (reached_of_mem hl l rfl) (reached_of_mem hv)
  indexOf l hl v hv := by
    rw [indexOf, indexOf,
      hr.embeds.position?_rename (reached_of_mem hl l rfl) (reached_of_mem hv)]
  displayWalk v hv depth hd := by
    rw [← hr.embeds.display_rename hr.injOn (reached_of_mem hv)]
    exact h'.displayWalk_returns _ hd
  inspectWalk v hv depth hd := by
    rw [← hr.embeds.inspect_rename hr.injOn (reached_of_mem hv)]
    exact h'.inspectWalk_returns _ hd
  equalWalk v hv w hw depth hd := by
    rw [← hr.embeds.equal_rename (reached_of_mem hv) (reached_of_mem hw)]
    exact h'.equalWalk_returns _ _ hd

end Renames

theorem Embeds.renames (he : h.Embeds h' f P) (hf : Set.InjOn f {l | P l})
    (hvs : ∀ v ∈ vs, ∀ l, v = .list l → P l) : h.Renames h' f vs := by
  have hreached : ∀ l, h.Reached vs l → P l := fun l ⟨v, hv, hl⟩ => he.of_reaches (hvs v hv) hl
  exact ⟨hf.mono hreached, fun l hl => he.elements l (hreached l hl)⟩

/--
If the lists that the values reach have other handles in another heap, different ones for different
lists, then the renamed values reach those lists there and no others, and all results are the same.
At any depth and any marks on those lists, the walks through both heaps are in step.
-/
theorem results_independent_of_handles [CharacterSet] (hr : h.Renames h' f vs) :
    Set.BijOn f {l | h.Reached vs l} {l | h'.Reached (vs.map (Value.rename f)) l} ∧
    h.SameResults h' f vs ∧
    ∀ v ∈ vs, ∀ depth,
      Walk.InStep f (h.Reached vs) (h.displayWalk depth v) (h'.displayWalk depth (v.rename f)) ∧
      Walk.InStep f (h.Reached vs) (h.inspectWalk depth v) (h'.inspectWalk depth (v.rename f)) ∧
      ∀ w ∈ vs, Walk.InStep f (h.Reached vs) (h.equalWalk depth v w)
        (h'.equalWalk depth (v.rename f) (w.rename f)) := by
  refine ⟨hr.bijOn, hr.sameResults, fun v hv depth => ⟨?_, ?_, fun w hw => ?_⟩⟩
  · exact hr.embeds.displayWalk_inStep hr.injOn depth (reached_of_mem hv)
  · exact hr.embeds.inspectWalk_inStep hr.injOn depth (reached_of_mem hv)
  · exact hr.embeds.equalWalk_inStep hr.injOn depth (reached_of_mem hv) (reached_of_mem hw)

/-- Two lists that hold each other. -/
def ringHeap : Heap := ⟨#[[.text "a", .list ⟨1⟩], [.list ⟨0⟩, .null]]⟩

/-- The same two in the other order, with a third between them. -/
def turnedHeap : Heap :=
  ⟨#[[.list ⟨2⟩, .null], [.list ⟨0⟩, .list ⟨1⟩], [.text "a", .list ⟨0⟩]]⟩

def turn : ListId → ListId
  | ⟨0⟩ => ⟨2⟩
  | _ => ⟨0⟩

theorem ringHeap_embeds : ringHeap.Embeds turnedHeap turn fun l => l = ⟨0⟩ ∨ l = ⟨1⟩ where
  closed := by
    rintro a (rfl | rfl) k hk
    · simpa [ringHeap, elements] using Or.inr hk
    · simpa [ringHeap, elements] using Or.inl hk
  elements := by
    rintro a (rfl | rfl)
    · rfl
    · rfl

theorem turn_injOn : Set.InjOn turn {l | l = ⟨0⟩ ∨ l = ⟨1⟩} := by
  rintro a (rfl | rfl) b (rfl | rfl) heq
  · rfl
  · cases heq
  · cases heq
  · rfl

theorem results_independent_of_handles_ring :
    ringHeap.Renames turnedHeap turn [.list ⟨0⟩, .list ⟨1⟩] ∧
      ringHeap.SameResults turnedHeap turn [.list ⟨0⟩, .list ⟨1⟩] := by
  have hr : ringHeap.Renames turnedHeap turn [.list ⟨0⟩, .list ⟨1⟩] := by
    refine ringHeap_embeds.renames turn_injOn fun v hv l hl => ?_
    subst hl
    simpa using hv
  exact ⟨hr, (results_independent_of_handles hr).2.1⟩

end Heap

end PageScript
