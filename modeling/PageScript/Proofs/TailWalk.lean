import Mathlib.Data.List.Nodup
import PageScript.Heap.Basic

/-!
# Walking along the tails of a list

A walk takes the head of a list, moves on to the tail, and goes on in this way until there is no
head. Every tail is a list of its own. Before each turn of the walk others may make lists and change
them. They may change the list that the walk began with at any time, also before the walk has left
it, and any other list unless the walk is at it.

Main statement: the walk visits the head that it took first and then all but the first of what its
list held when the tail was taken, in order, in as many steps. That is what the list held then, if
its head was still the same. The walk changes no list, and moves to new ones only.
-/

namespace PageScript

/-- A change of what a list holds. -/
inductive Mutation where
  | append (v : Value)
  | setAt (index : Nat) (v : Value)
  | clear

/-- The heap after a change, which leaves it as it is if it fails. -/
def Heap.mutate (h : Heap) (l : ListId) : Mutation → Heap
  | .append v => h.append l v
  | .setAt index v =>
    match h.setAt l index v with
    | .ok changed => changed
    | .error _ => h
  | .clear => h.clear l

/-- What others do to the heap. -/
inductive Interference where
  | change (k : ListId) (m : Mutation)
  | make (items : List Value)

def Interference.changes (l : ListId) : Interference → Bool
  | change k _ => k = l
  | make _ => false

namespace Heap

variable (h : Heap) (l : ListId) (m : Mutation)

theorem mutate_eq : h.mutate l m = h ∨ ∃ f, h.mutate l m = h.update l f := by
  cases m with
  | append v => exact .inr ⟨_, rfl⟩
  | setAt index v =>
    rw [mutate, setAt]
    split
    · next changed hok =>
      split at hok
      · cases hok
        exact .inr ⟨_, rfl⟩
      · cases hok
    · exact .inl rfl
  | clear => exact .inr ⟨_, rfl⟩

@[simp]
theorem listCount_mutate : (h.mutate l m).listCount = h.listCount := by
  rcases h.mutate_eq l m with heq | ⟨f, heq⟩
  · rw [heq]
  · rw [heq, listCount_update]

theorem elements_mutate_ne {k : ListId} (hk : k ≠ l) :
    (h.mutate l m).elements k = h.elements k := by
  rcases h.mutate_eq l m with heq | ⟨f, heq⟩
  · rw [heq]
  · rw [heq, elements_update_ne h f hk]

def interfere (h : Heap) : Interference → Heap
  | .change k m => h.mutate k m
  | .make items => (h.make items).2

def interfereAll (h : Heap) (gap : List Interference) : Heap := gap.foldl interfere h

theorem interfere_keeps (h : Heap) (i : Interference) :
    h.listCount ≤ (h.interfere i).listCount ∧
    ∀ k : ListId, k.index < h.listCount → i.changes k = false →
      (h.interfere i).elements k = h.elements k := by
  cases i with
  | change j m =>
    refine ⟨Nat.le_of_eq (h.listCount_mutate j m).symm, fun k _ hk => h.elements_mutate_ne j m ?_⟩
    exact fun heq => of_decide_eq_false hk heq.symm
  | make items =>
    refine ⟨?_, fun k hk _ => h.elements_make_of_lt items hk⟩
    rw [interfere, listCount_make]
    exact Nat.le_succ _

/-- Lists stay in the heap, and keep what they hold if nothing changes them. -/
theorem interfereAll_keeps (h : Heap) (gap : List Interference) :
    h.listCount ≤ (h.interfereAll gap).listCount ∧
    ∀ k : ListId, k.index < h.listCount → gap.any (·.changes k) = false →
      (h.interfereAll gap).elements k = h.elements k := by
  induction gap generalizing h with
  | nil => exact ⟨Nat.le_refl _, fun _ _ _ => rfl⟩
  | cons i gap ih =>
    obtain ⟨hcount, hkeeps⟩ := h.interfere_keeps i
    obtain ⟨hcountAll, hkeepsAll⟩ := ih (h.interfere i)
    refine ⟨Nat.le_trans hcount hcountAll, fun k hk hany => ?_⟩
    rw [List.any_cons, Bool.or_eq_false_iff] at hany
    have hrest := hkeepsAll k (Nat.lt_of_lt_of_le hk hcount) hany.2
    exact hrest.trans (hkeeps k hk hany.1)

end Heap

/-- What a walk does next. It is over when it has asked for a head in vain. -/
inductive TailWalk.Stage where
  | head
  | tail
  | ended
deriving DecidableEq

/-- A walk along the tails of a list, under way in a heap. -/
structure TailWalk where
  heap : Heap
  /-- The list that the walk is at. -/
  current : ListId
  /-- The lists that it has left, oldest first. -/
  left : List ListId := []
  /-- The heads that it has taken, oldest first. -/
  visited : List Value := []
  next : TailWalk.Stage := .head

namespace TailWalk

def start (h : Heap) (l : ListId) : TailWalk := { heap := h, current := l }

/-- The walk takes a head and a tail by turns, until there is no head. -/
def turn (w : TailWalk) : TailWalk :=
  match w.next with
  | .head =>
    match w.heap.head? w.current with
    | some v => { w with visited := w.visited ++ [v], next := .tail }
    | none => { w with next := .ended }
  | .tail =>
    { w with
      heap := (w.heap.tail w.current).2
      current := (w.heap.tail w.current).1
      left := w.left ++ [w.current]
      next := .head }
  | .ended => w

def meanwhile (w : TailWalk) (gap : List Interference) : TailWalk :=
  { w with heap := w.heap.interfereAll gap }

/-- As many turns as there are gaps. What others do in a gap is done before the turn. -/
def run (w : TailWalk) : List (List Interference) → TailWalk
  | [] => w
  | gap :: gaps => (w.meanwhile gap).turn.run gaps

/-- In no gap a list is changed while the walk is at it, except `l`. -/
def Spares (l : ListId) (w : TailWalk) : List (List Interference) → Prop
  | [] => True
  | gap :: gaps =>
    (gap.any (·.changes w.current) = true → w.current = l) ∧ Spares l (w.meanwhile gap).turn gaps

instance decidableSpares (l : ListId) (w : TailWalk) :
    (gaps : List (List Interference)) → Decidable (w.Spares l gaps)
  | [] => isTrue trivial
  | gap :: gaps =>
    have := decidableSpares l (w.meanwhile gap).turn gaps
    inferInstanceAs (Decidable (_ ∧ _))

variable {w : TailWalk} {l : ListId} {xs ys : List Value} {turns : Nat}
  {gap : List Interference} {gaps : List (List Interference)}

theorem turn_of_some {v : Value} (hnext : w.next = .head) (hv : w.heap.head? w.current = some v) :
    w.turn = { w with visited := w.visited ++ [v], next := .tail } := by
  rw [turn, hnext]
  simp only [hv]

theorem turn_of_none (hnext : w.next = .head) (hnone : w.heap.head? w.current = none) :
    w.turn = { w with next := .ended } := by
  rw [turn, hnext]
  simp only [hnone]

theorem turn_of_tail (hnext : w.next = .tail) :
    w.turn =
      { w with
        heap := (w.heap.tail w.current).2
        current := (w.heap.tail w.current).1
        left := w.left ++ [w.current]
        next := .head } := by
  rw [turn, hnext]

theorem turn_of_ended (hnext : w.next = .ended) : w.turn = w := by
  rw [turn, hnext]

/-- A turn changes no list of the heap, and none of them is the tail. -/
theorem turn_keeps (w : TailWalk) {k : ListId} (hk : k.index < w.heap.listCount) :
    w.turn.heap.elements k = w.heap.elements k ∧ (w.next = .tail → k ≠ w.turn.current) := by
  cases hnext : w.next with
  | head =>
    refine ⟨?_, fun htail => by cases htail⟩
    cases hv : w.heap.head? w.current with
    | none => rw [turn_of_none hnext hv]
    | some v => rw [turn_of_some hnext hv]
  | tail =>
    rw [turn_of_tail hnext]
    refine ⟨w.heap.elements_make_of_lt _ hk, fun _ heq => ?_⟩
    subst heq
    exact Nat.lt_irrefl _ hk
  | ended =>
    rw [turn_of_ended hnext]
    exact ⟨rfl, fun htail => by cases htail⟩

theorem left_turn_ne_nil (hmoved : w.left ≠ []) : w.turn.left ≠ [] := by
  cases hnext : w.next with
  | head =>
    cases hv : w.heap.head? w.current with
    | none => rwa [turn_of_none hnext hv]
    | some v => rwa [turn_of_some hnext hv]
  | tail =>
    rw [turn_of_tail hnext]
    exact List.append_ne_nil_of_left_ne_nil hmoved _
  | ended => rwa [turn_of_ended hnext]

/-- A walk that is over stays as it is, whatever others do. -/
theorem run_of_ended (hnext : w.next = .ended) (gaps : List (List Interference)) :
    (w.run gaps).next = .ended ∧ (w.run gaps).visited = w.visited ∧ (w.run gaps).left = w.left := by
  induction gaps generalizing w with
  | nil => exact ⟨hnext, rfl, rfl⟩
  | cons gap gaps ih =>
    have hover : (w.meanwhile gap).next = .ended := hnext
    rw [run, turn_of_ended hover]
    exact ih hover

/-- How far a walk has come after some turns, by what it does next. It visits `ys`. -/
inductive Progress (ys : List Value) (turns : Nat) (w : TailWalk) : Prop where
  | head (hnext : w.next = .head) (hturns : turns = 2 * w.left.length)
      (hle : w.left.length ≤ ys.length) (hvisited : w.visited = ys.take w.left.length)
  | tail (hnext : w.next = .tail) (hturns : turns = 2 * w.left.length + 1)
      (hlt : w.left.length < ys.length) (hvisited : w.visited = ys.take (w.left.length + 1))
  | ended (hnext : w.next = .ended) (hturns : 2 * ys.length < turns)
      (heq : w.left.length = ys.length) (hvisited : w.visited = ys)

/-- The walk began at a list `l` and finds what `l` held as `xs`. -/
structure Along (l : ListId) (xs ys : List Value) (turns : Nat) (w : TailWalk) : Prop where
  origin : (w.left ++ [w.current]).head? = some l
  inHeap : ∀ k ∈ w.left ++ [w.current], k.index < w.heap.listCount
  nodup : (w.left ++ [w.current]).Nodup
  elements : w.heap.elements w.current = xs.drop w.left.length
  progress : w.Progress ys turns

namespace Along

theorem current_ne (hw : w.Along l xs ys turns) (hmoved : w.left ≠ []) : w.current ≠ l := by
  obtain ⟨k, left, hleft⟩ := List.exists_cons_of_ne_nil hmoved
  have horigin := hw.origin
  have hnodup := hw.nodup
  rw [hleft, List.cons_append] at horigin hnodup
  obtain rfl : k = l := Option.some.inj horigin
  intro heq
  exact (List.nodup_cons.mp hnodup).1 (by simp [heq])

/-- What others do concerns the walk only by the list that it is at. -/
theorem meanwhile (hw : w.Along l xs ys turns) (hgap : gap.any (·.changes w.current) = false) :
    (w.meanwhile gap).Along l xs ys turns := by
  obtain ⟨hcount, hkeeps⟩ := w.heap.interfereAll_keeps gap
  have hcurrent := hw.inHeap w.current (by simp)
  exact
    { origin := hw.origin
      inHeap := fun k hk => Nat.lt_of_lt_of_le (hw.inHeap k hk) hcount
      nodup := hw.nodup
      elements := (hkeeps w.current hcurrent hgap).trans hw.elements
      progress := by
        cases hw.progress with
        | head hnext hturns hle hvisited => exact .head hnext hturns hle hvisited
        | tail hnext hturns hlt hvisited => exact .tail hnext hturns hlt hvisited
        | ended hnext hturns heq hvisited => exact .ended hnext hturns heq hvisited }

/-- Once the walk has left `l`, what it finds and what it visits agree. -/
theorem head?_current (hw : w.Along l xs ys turns) (hrest : ys.tail = xs.tail)
    (hmoved : w.left ≠ []) : w.heap.head? w.current = ys[w.left.length]? := by
  obtain ⟨k, hk⟩ := Nat.exists_eq_succ_of_ne_zero (mt List.length_eq_zero_iff.mp hmoved)
  rw [Heap.head?, hw.elements, List.head?_drop, hk, ← List.getElem?_tail, ← List.getElem?_tail,
    hrest]

theorem takeTail (hw : w.Along l xs ys turns) (hnext : w.next = .tail)
    (hturns : turns = 2 * w.left.length + 1) (hlt : w.left.length < ys.length)
    (hvisited : w.visited = ys.take (w.left.length + 1)) : w.turn.Along l xs ys (turns + 1) := by
  have hnew : ∀ k ∈ w.left ++ [w.current], k ≠ w.turn.current := fun k hk =>
    (w.turn_keeps (hw.inHeap k hk)).2 hnext
  rw [turn_of_tail hnext] at hnew ⊢
  exact
    { origin := by rw [List.head?_append, hw.origin, Option.some_or]
      inHeap := fun k hk => by
        rw [Heap.tail, Heap.listCount_make]
        rcases List.mem_append.mp hk with hold | htail
        · exact Nat.lt_succ_of_lt (hw.inHeap k hold)
        · rw [List.mem_singleton.mp htail]
          exact Nat.lt_succ_self _
      nodup := by
        refine List.nodup_append.mpr ⟨hw.nodup, List.nodup_singleton _, fun k hk k' hk' => ?_⟩
        rw [List.mem_singleton.mp hk']
        exact hnew k hk
      elements := by
        rw [Heap.tail, Heap.elements_make, hw.elements, List.tail_drop, List.length_append,
          List.length_singleton]
      progress := by
        apply Progress.head rfl
        · simp only [List.length_append, List.length_singleton]
          omega
        · rw [List.length_append]
          exact hlt
        · rw [List.length_append]
          exact hvisited }

theorem turn (hw : w.Along l xs ys turns) (hrest : ys.tail = xs.tail) (hmoved : w.left ≠ []) :
    w.turn.Along l xs ys (turns + 1) := by
  cases hw.progress with
  | head hnext hturns hle hvisited =>
    have hhead := hw.head?_current hrest hmoved
    cases hv : ys[w.left.length]? with
    | none =>
      rw [turn_of_none hnext (hhead.trans hv)]
      have hall : w.left.length = ys.length :=
        Nat.le_antisymm hle (List.getElem?_eq_none_iff.mp hv)
      have hover : w.visited = ys := by rw [hvisited, hall, List.take_length]
      exact { hw with progress := .ended rfl (by omega) hall hover }
    | some v =>
      rw [turn_of_some hnext (hhead.trans hv)]
      obtain ⟨hlt, -⟩ := List.getElem?_eq_some_iff.mp hv
      have hmore : w.visited ++ [v] = ys.take (w.left.length + 1) := by
        rw [List.take_add_one, hv, Option.toList_some, hvisited]
      exact { hw with progress := .tail rfl (congrArg (· + 1) hturns) hlt hmore }
  | tail hnext hturns hlt hvisited => exact hw.takeTail hnext hturns hlt hvisited
  | ended hnext hturns heq hvisited =>
    rw [turn_of_ended hnext]
    exact { hw with progress := .ended hnext (by omega) heq hvisited }

/-- What a turn keeps, with what others do before it, holds after all turns. -/
theorem run (hw : w.Along l xs ys turns) (hrest : ys.tail = xs.tail) (hmoved : w.left ≠ [])
    (hspares : w.Spares l gaps) : (w.run gaps).Along l xs ys (gaps.length + turns) := by
  induction gaps generalizing w turns with
  | nil => rwa [List.length_nil, Nat.zero_add]
  | cons gap gaps ih =>
    obtain ⟨hgap, hspares⟩ := hspares
    have hspared : gap.any (·.changes w.current) = false :=
      Bool.eq_false_iff.mpr fun hany => hw.current_ne hmoved (hgap hany)
    have hturn := (hw.meanwhile hspared).turn hrest hmoved
    rw [List.length_cons, Nat.add_right_comm, Nat.add_assoc]
    exact ih hturn (left_turn_ne_nil hmoved) hspares

end Along

/--
After so many turns, a walk that began at `l` and left `xs` there has visited so many of `ys`. It is
over after a turn for each head, one for each tail and one in vain.
-/
structure GoesThrough (l : ListId) (xs ys : List Value) (turns : Nat) (w : TailWalk) : Prop where
  visited : w.visited = ys.take ((turns + 1) / 2)
  steps : w.left.length = min (turns / 2) ys.length
  ended_iff : w.next = .ended ↔ 2 * ys.length < turns
  /-- After so many steps, so many elements are gone. -/
  elements : w.heap.elements w.current = xs.drop w.left.length
  /-- The walk is at a list for the first time, each time. -/
  origin : (w.left ++ [w.current]).head? = some l
  nodup : (w.left ++ [w.current]).Nodup

theorem Along.goesThrough (hw : w.Along l xs ys turns) : w.GoesThrough l xs ys turns := by
  have hfar : w.visited = ys.take ((turns + 1) / 2) ∧ w.left.length = min (turns / 2) ys.length ∧
      (w.next = .ended ↔ 2 * ys.length < turns) := by
    cases hw.progress with
    | head hnext hturns hle hvisited =>
      have hhalf : (turns + 1) / 2 = w.left.length := by omega
      refine ⟨by rw [hhalf, hvisited], by omega, fun hover => ?_, fun _ => by omega⟩
      rw [hnext] at hover
      cases hover
    | tail hnext hturns hlt hvisited =>
      have hhalf : (turns + 1) / 2 = w.left.length + 1 := by omega
      refine ⟨by rw [hhalf, hvisited], by omega, fun hover => ?_, fun _ => by omega⟩
      rw [hnext] at hover
      cases hover
    | ended hnext hturns heq hvisited =>
      refine ⟨?_, by omega, ⟨fun _ => hturns, fun _ => hnext⟩⟩
      rw [List.take_of_length_le (by omega), hvisited]
  exact
    { visited := hfar.1
      steps := hfar.2.1
      ended_iff := hfar.2.2
      elements := hw.elements
      origin := hw.origin
      nodup := hw.nodup }

/-- The first tail is taken from the list with which the walk began, whatever it holds by then. -/
theorem along_first_tail {h : Heap} (hl : l.index < h.listCount) (v : Value) :
    Along l (h.elements l) (v :: (h.elements l).tail) 2
      (turn { heap := h, current := l, visited := [v], next := .tail }) := by
  have hw : Along l (h.elements l) (v :: (h.elements l).tail) 1
      { heap := h, current := l, visited := [v], next := .tail } :=
    { origin := rfl
      inHeap := by simpa using hl
      nodup := List.nodup_singleton l
      elements := rfl
      progress := .tail rfl rfl (Nat.zero_lt_succ _) rfl }
  exact hw.takeTail rfl rfl (Nat.zero_lt_succ _) rfl

/--
A walk begins at a list. If there is no head when it asks for the first, it is over at once. If
there is one, `v`, then the walk goes through what the list holds when its tail is taken, with `v`
for the first element, whatever others do to the list before and after, and to the lists that the
walk has left. So it goes through what the list held then if `v` was still its head. A turn of a
walk changes no list, and the tails are new lists.
-/
theorem walk_goes_through {h : Heap} {l : ListId} (hl : l.index < h.listCount)
    (first second : List Interference) (rest : List (List Interference))
    (hspares : (start h l).Spares l (first :: second :: rest)) :
    let atHead := h.interfereAll first
    let atTail := atHead.interfereAll second
    let w := (start h l).run (first :: second :: rest)
    (atHead.head? l = none → w.next = .ended ∧ w.visited = [] ∧ w.left = []) ∧
    (∀ v, atHead.head? l = some v →
      w.GoesThrough l (atTail.elements l) (v :: (atTail.elements l).tail) (rest.length + 2) ∧
      (v :: (atTail.elements l).tail).length = max 1 (atTail.size l) ∧
      (atTail.head? l = some v →
        w.GoesThrough l (atTail.elements l) (atTail.elements l) (rest.length + 2))) ∧
    ∀ (u : TailWalk) (k : ListId), k.index < u.heap.listCount →
      u.turn.heap.elements k = u.heap.elements k ∧ (u.next = .tail → k ≠ u.turn.current) := by
  intro atHead atTail w
  obtain ⟨-, -, hspares⟩ := hspares
  refine ⟨fun hnone => ?_, fun v hv => ?_, fun u k hk => u.turn_keeps hk⟩
  · have hturn : ((start h l).meanwhile first).turn =
        { heap := atHead, current := l, next := .ended } := turn_of_none rfl hnone
    have hrun : w = run { heap := atHead, current := l, next := .ended } (second :: rest) :=
      congrArg (run · (second :: rest)) hturn
    rw [hrun]
    exact run_of_ended rfl _
  · have hturn : ((start h l).meanwhile first).turn =
        { heap := atHead, current := l, visited := [v], next := .tail } := turn_of_some rfl hv
    have hrun : w = run { heap := atHead, current := l, visited := [v], next := .tail }
        (second :: rest) := congrArg (run · (second :: rest)) hturn
    have hcount : l.index < atTail.listCount :=
      Nat.lt_of_lt_of_le hl
        (Nat.le_trans (h.interfereAll_keeps first).1 (atHead.interfereAll_keeps second).1)
    have hthrough : w.GoesThrough l (atTail.elements l) (v :: (atTail.elements l).tail)
        (rest.length + 2) := by
      rw [hrun]
      rw [hturn] at hspares
      exact ((along_first_tail hcount v).run rfl (List.cons_ne_nil l []) hspares).goesThrough
    refine ⟨hthrough, ?_, fun hsame => ?_⟩
    · rw [List.length_cons, List.length_tail, Heap.size]
      omega
    · rwa [List.cons_head?_tail hsame] at hthrough

/-- One list of two texts. -/
def twoTexts : Heap := ⟨#[[.text "a", .text "b"]]⟩

/-- The list gets a third element and another second one before its tail is taken. -/
def disturbedBefore : List Interference := [.change ⟨0⟩ (.append (.text "c"))]

def disturbedBetween : List Interference := [.change ⟨0⟩ (.setAt 1 (.text "d"))]

/-- Then it is cleared and gets itself for an element, and the lists that the walk leaves change. -/
def disturbedLater : List (List Interference) :=
  [[.change ⟨0⟩ .clear], [.change ⟨0⟩ (.append (.list ⟨0⟩)), .make [.null]],
    [.change ⟨1⟩ (.setAt 0 .null)], [.change ⟨1⟩ .clear, .change ⟨2⟩ .clear], []]

theorem walk_goes_through_disturbed :
    let w := (start twoTexts ⟨0⟩).run (disturbedBefore :: disturbedBetween :: disturbedLater)
    let xs := [.text "a", .text "d", .text "c"]
    (start twoTexts ⟨0⟩).Spares ⟨0⟩ (disturbedBefore :: disturbedBetween :: disturbedLater) ∧
      w.GoesThrough ⟨0⟩ xs xs 7 ∧ w.next = .ended ∧ w.visited = xs ∧
      w.left = [⟨0⟩, ⟨1⟩, ⟨3⟩] ∧ w.heap.elements ⟨0⟩ = [.list ⟨0⟩] := by
  have hspares : (start twoTexts ⟨0⟩).Spares ⟨0⟩
      (disturbedBefore :: disturbedBetween :: disturbedLater) := by decide
  obtain ⟨-, hthrough, -⟩ := walk_goes_through (Nat.zero_lt_succ 0) _ _ _ hspares
  exact ⟨hspares, (hthrough (.text "a") rfl).2.2 rfl, rfl, rfl, rfl, rfl⟩

/-- If the list gets another head after the first was taken, the walk does not visit the new one. -/
theorem walk_keeps_replaced_head :
    let between : List Interference := [.change ⟨0⟩ (.setAt 0 (.text "c"))]
    let w := (start twoTexts ⟨0⟩).run [[], between, [], [], []]
    (start twoTexts ⟨0⟩).Spares ⟨0⟩ [[], between, [], [], []] ∧ w.next = .ended ∧
      (twoTexts.interfereAll between).elements ⟨0⟩ = [.text "c", .text "b"] ∧
      w.visited = [.text "a", .text "b"] ∧
      w.visited ≠ (twoTexts.interfereAll between).elements ⟨0⟩ := by
  refine ⟨by decide, rfl, rfl, rfl, fun hsame => ?_⟩
  have hheads : some (Value.text "a") = some (.text "c") := congrArg List.head? hsame
  exact absurd (Value.text.inj (Option.some.inj hheads)) (by decide)

end TailWalk

end PageScript
