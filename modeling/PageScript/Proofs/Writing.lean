import PageScript.Heap.Texts
import PageScript.Proofs.Walk

/-!
# What a writing puts

A writing is told by the pieces that it puts. Whatever the sink, they are put in order, up to the
first that is refused, and in either case the writing ends with the marks that it found.
`Writing.Puts` says so, and every way to build a writing keeps to it. A sink that refuses nothing
gets the pieces joined.
-/

namespace PageScript

variable {ε σ α : Type}

namespace Sink

/-- Puts pieces one after another, up to the first that is refused. -/
def putAll (sink : Sink ε σ) : List String → σ → Except ε Unit × σ
  | [], s => (.ok (), s)
  | piece :: pieces, s =>
    match sink piece s with
    | (.ok (), s) => sink.putAll pieces s
    | (.error e, s) => (.error e, s)

variable {sink : Sink ε σ} {piece : String} {pieces more : List String} {s t : σ} {e : ε}

theorem putAll_cons_of_ok (h : sink piece s = (.ok (), t)) :
    sink.putAll (piece :: pieces) s = sink.putAll pieces t := by
  rw [putAll, h]

theorem putAll_cons_of_error (h : sink piece s = (.error e, t)) :
    sink.putAll (piece :: pieces) s = (.error e, t) := by
  rw [putAll, h]

theorem putAll_singleton : sink.putAll [piece] s = sink piece s := by
  rcases h : sink piece s with ⟨_ | _, t⟩
  · exact putAll_cons_of_error h
  · exact putAll_cons_of_ok h

theorem putAll_append_of_ok (h : sink.putAll pieces s = (.ok (), t)) :
    sink.putAll (pieces ++ more) s = sink.putAll more t := by
  induction pieces generalizing s with
  | nil =>
    cases h
    rfl
  | cons piece pieces ih =>
    rcases hput : sink piece s with ⟨_ | _, u⟩
    · rw [putAll_cons_of_error hput] at h
      cases h
    · rw [putAll_cons_of_ok hput] at h
      rw [List.cons_append, putAll_cons_of_ok hput, ih h]

theorem putAll_append_of_error (h : sink.putAll pieces s = (.error e, t)) :
    sink.putAll (pieces ++ more) s = (.error e, t) := by
  induction pieces generalizing s with
  | nil => cases h
  | cons piece pieces ih =>
    rcases hput : sink piece s with ⟨_ | _, u⟩
    · rw [putAll_cons_of_error hput] at h
      rw [List.cons_append, putAll_cons_of_error hput, h]
    · rw [putAll_cons_of_ok hput] at h
      rw [List.cons_append, putAll_cons_of_ok hput, ih h]

theorem putAll_buffer (pieces : List String) (text : String) :
    buffer.putAll pieces text = (.ok (), text ++ String.join pieces) := by
  induction pieces generalizing text with
  | nil => simp [putAll]
  | cons piece pieces ih =>
    rw [putAll_cons_of_ok (t := text ++ piece) rfl, ih, String.join_cons, String.append_assoc]

end Sink

/-- Pieces of texts with a piece between each and the next. -/
def separate (separator : String) : List (List String) → List String
  | [] => []
  | first :: rest => first ++ rest.flatMap (separator :: ·)

theorem join_separate (separator : String) (texts : List (List String)) :
    String.join (separate separator texts) =
      separator.intercalate (texts.map String.join) := by
  cases texts with
  | nil => rfl
  | cons first rest =>
    rw [separate]
    induction rest generalizing first with
    | nil => simp
    | cons next rest ih =>
      rw [List.flatMap_cons, List.cons_append, String.join_append, String.join_cons, ih,
        List.map_cons, List.map_cons, List.map_cons, String.intercalate_cons_cons,
        String.append_assoc]

namespace Writing

/--
From the marks, whatever the state of the sink, the writing ends. It has put the pieces in order, up
to the first that was refused, and the marks are as they were.
-/
def Puts (sink : Sink ε σ) (writing : Writing ε σ Unit) (marks : Marks) (pieces : List String) :
    Prop :=
  ∀ s, Walk.Returns (writing.run s) marks (sink.putAll pieces s)

variable {sink : Sink ε σ} {writing next again : Writing ε σ Unit} {mark : Mark} {marks : Marks}
  {pieces more : List String}

theorem puts_pure : Puts sink (pure ()) marks [] := fun _ => rfl

theorem puts_put (piece : String) : Puts sink (put sink piece) marks [piece] := by
  intro s
  rw [Sink.putAll_singleton]
  exact Walk.returns_pure marks (sink piece s)

/-- What comes after a writing is written if nothing was refused. -/
def continued (next : Writing ε σ Unit) : Except ε Unit × σ → Walk (Except ε Unit × σ)
  | (.ok (), s) => next.run s
  | (.error e, s) => pure (.error e, s)

theorem run_seq (writing next : Writing ε σ Unit) (s : σ) :
    (writing >>= fun _ => next).run s = writing.run s >>= continued next := by
  have hbind : (writing >>= fun _ => next).run s =
      writing.run s >>= fun r => ExceptT.bindCont (fun _ => next) r.1 r.2 := rfl
  rw [hbind]
  refine bind_congr fun r => ?_
  obtain ⟨_ | _, t⟩ := r <;> rfl

theorem Puts.seq (h : Puts sink writing marks pieces) (hnext : Puts sink next marks more) :
    Puts sink (writing >>= fun _ => next) marks (pieces ++ more) := by
  intro s
  rw [run_seq]
  refine (h s).bind ?_
  rcases hput : sink.putAll pieces s with ⟨e | _, t⟩
  · rw [Sink.putAll_append_of_error hput]
    exact Walk.returns_pure marks _
  · rw [Sink.putAll_append_of_ok hput]
    exact hnext t

theorem puts_once_again (hm : mark ∈ marks) (h : Puts sink again marks pieces) :
    Puts sink (once mark again writing) marks pieces :=
  fun s => (Walk.returns_once_again hm none _).bind (h s)

/-- The mark is taken off however the writing under it ended. -/
theorem Puts.once (hm : mark ∉ marks) (h : Puts sink writing (mark :: marks) pieces) :
    Puts sink (once mark again writing) marks pieces := by
  intro s
  have hinside : Walk.Returns (some <$> writing.run s) (mark :: marks)
      (some (sink.putAll pieces s)) := by
    rw [map_eq_pure_bind]
    exact (h s).map some
  exact (hinside.once hm none).bind (Walk.returns_pure marks _)

theorem puts_forM {write : α → Writing ε σ Unit} {f : α → List String} {xs : List α}
    (hx : ∀ x ∈ xs, Puts sink (write x) marks (f x)) :
    Puts sink (xs.forM write) marks (xs.flatMap f) := by
  induction xs with
  | nil => exact puts_pure
  | cons x xs ih =>
    rw [List.flatMap_cons]
    exact (hx x List.mem_cons_self).seq (ih fun y hy => hx y (List.mem_cons_of_mem x hy))

theorem puts_separated {separator : String} {write : α → Writing ε σ Unit} {f : α → List String}
    {xs : List α} (hx : ∀ x ∈ xs, Puts sink (write x) marks (f x)) :
    Puts sink (separated sink separator write xs) marks (separate separator (xs.map f)) := by
  cases xs with
  | nil => exact puts_pure
  | cons x xs =>
    rw [List.map_cons, separate, List.flatMap_map]
    refine (hx x List.mem_cons_self).seq (puts_forM fun y hy => ?_)
    exact (puts_put separator).seq (hx y (List.mem_cons_of_mem x hy))

theorem Puts.wrapped (h : Puts sink writing marks pieces) (name : String) :
    Puts sink (wrapped sink name writing) marks ([name, "("] ++ (pieces ++ [")"])) :=
  (puts_put name).seq ((puts_put "(").seq (h.seq (puts_put ")")))

theorem Puts.text {writing : Writing Empty String Unit}
    (h : Puts Sink.buffer writing marks pieces) :
    writing.text.Returns marks (String.join pieces) := by
  have hrun := h ""
  rw [Sink.putAll_buffer, String.empty_append] at hrun
  exact hrun.bind (Walk.returns_pure marks _)

end Writing

end PageScript
