import Mathlib.Data.List.Nodup
import PageScript.Proofs.Lists

/-!
# Records of shared things

A record of shared things of one kind, lists or cells, is kept apart from the things themselves.
It says to which operation each handle goes back, what each operation that makes a thing has put
into it, and what was done to the thing of which operation, oldest first. Nothing in it is ever
taken back or written over. What a thing holds is found by doing all of it again.

`Tracks` says that a store of things and the handles to them are as the record has them. It is
kept by sharing a handle, by making a thing and by changing one, and that is all that can happen.
-/

namespace PageScript

/-- What is known of the shared things of one kind. Operations are named by their number. -/
structure Record (κ : Type) where
  /-- For each handle, the operation that it goes back to. -/
  origins : List Nat := []
  /-- The operations that have made a thing, with what they have put into it. -/
  made : List (Nat × κ) := []
  /-- What was done to the thing of which operation. -/
  changes : List (Nat × (κ → κ)) := []

namespace Record

variable {κ : Type}

/-- One more handle to the thing of a handle. -/
def share (r : Record κ) (x : Nat) : Record κ :=
  match r.origins[x]? with
  | some k => { r with origins := r.origins ++ [k] }
  | none => r

def make (r : Record κ) (time : Nat) (contents : κ) : Record κ :=
  { r with origins := r.origins ++ [time], made := r.made ++ [(time, contents)] }

/-- Something is done to the thing of a handle. -/
def change (r : Record κ) (x : Nat) (f : κ → κ) : Record κ :=
  match r.origins[x]? with
  | some k => { r with changes := r.changes ++ [(k, f)] }
  | none => r

/-- The operations that have made a thing. -/
def times (r : Record κ) : List Nat := r.made.map Prod.fst

/-- What was done to the thing of an operation. -/
def changesOf (r : Record κ) (k : Nat) : List (κ → κ) :=
  (r.changes.filter fun entry => entry.1 == k).map Prod.snd

/-- What the thing of an operation holds: what was put into it, and then all that was done to it. -/
def contents? (r : Record κ) (k : Nat) : Option κ :=
  (r.made.lookup k).map fun contents => (r.changesOf k).foldl (fun c f => f c) contents

/-- What the thing of a handle holds. -/
def holds? (r : Record κ) (x : Nat) : Option κ := (r.origins[x]?).bind r.contents?

theorem share_eq (r : Record κ) {x k : Nat} (hx : r.origins[x]? = some k) :
    r.share x = { r with origins := r.origins ++ [k] } := by
  simp only [share, hx]

theorem change_eq (r : Record κ) {x k : Nat} (hx : r.origins[x]? = some k) (f : κ → κ) :
    r.change x f = { r with changes := r.changes ++ [(k, f)] } := by
  simp only [change, hx]

theorem contents?_change (r : Record κ) {x k : Nat} (hx : r.origins[x]? = some k) (f : κ → κ)
    (i : Nat) :
    (r.change x f).contents? i = if k = i then (r.contents? i).map f else r.contents? i := by
  rw [change_eq r hx]
  have hchanges : ({ r with changes := r.changes ++ [(k, f)] } : Record κ).changesOf i =
      r.changesOf i ++ if k = i then [f] else [] := by
    by_cases hk : k = i <;> simp [changesOf, hk]
  rw [contents?, hchanges]
  by_cases hk : k = i
  · rw [if_pos hk, if_pos hk, contents?, Option.map_map]
    congr 1
    funext contents
    rw [List.foldl_concat]
    rfl
  · rw [if_neg hk, if_neg hk, List.append_nil]
    rfl

theorem contents?_make_of_ne (r : Record κ) {time i : Nat} (c : κ) (h : i ≠ time) :
    (r.make time c).contents? i = r.contents? i := by
  have hne : (i == time) = false := by simpa using h
  have hlookup : (r.make time c).made.lookup i = r.made.lookup i := by
    simp [make, List.lookup_append, List.lookup_cons, hne]
  rw [contents?, hlookup]
  rfl

/-- What is made now holds what is put into it. -/
theorem contents?_make_self (r : Record κ) {time : Nat} (c : κ)
    (hmade : ∀ entry ∈ r.made, entry.1 ≠ time) (hchanges : ∀ entry ∈ r.changes, entry.1 ≠ time) :
    (r.make time c).contents? time = some c := by
  have hbefore : r.made.lookup time = none := by
    rw [List.lookup_eq_none_iff]
    intro entry hmem
    simpa using Ne.symm (hmade entry hmem)
  have hnothing : (r.make time c).changesOf time = [] := by
    rw [changesOf, List.map_eq_nil_iff, List.filter_eq_nil_iff]
    intro entry hmem
    simpa using hchanges entry hmem
  rw [contents?, hnothing]
  simp [make, List.lookup_append, hbefore]

end Record

variable {κ γ : Type}

/--
Handles and a store are as a record has them. A handle is the place of its thing in the store, and
things stand there in the order in which they were made.
-/
structure Tracks (rel : κ → γ → Prop) (time : Nat) (r : Record κ) (handles : List Nat)
    (slots : Array γ) : Prop where
  size : r.times.length = slots.size
  distinct : r.times.Nodup
  made_before : ∀ entry ∈ r.made, entry.1 < time
  changed_before : ∀ entry ∈ r.changes, entry.1 < time
  handle : List.Forall₂ (fun k i => r.times[i]? = some k) r.origins handles
  slot : ∀ i k : Nat, r.times[i]? = some k →
    ∃ c d, r.contents? k = some c ∧ slots[i]? = some d ∧ rel c d

namespace Tracks

variable {rel rel' : κ → γ → Prop} {time : Nat} {r : Record κ} {handles : List Nat}
  {slots : Array γ}

theorem start (rel : κ → γ → Prop) (time : Nat) : Tracks rel time {} [] #[] where
  size := rfl
  distinct := .nil
  made_before _ hmem := by cases hmem
  changed_before _ hmem := by cases hmem
  handle := .nil
  slot _ _ h := by cases h

theorem mono (h : Tracks rel time r handles slots) (hrel : ∀ c d, rel c d → rel' c d)
    {later : Nat} (hlater : time ≤ later) : Tracks rel' later r handles slots where
  size := h.size
  distinct := h.distinct
  made_before entry hmem := Nat.lt_of_lt_of_le (h.made_before entry hmem) hlater
  changed_before entry hmem := Nat.lt_of_lt_of_le (h.changed_before entry hmem) hlater
  handle := h.handle
  slot i k hk := by
    obtain ⟨c, d, hc, hd, hr⟩ := h.slot i k hk
    exact ⟨c, d, hc, hd, hrel c d hr⟩

theorem time_lt (h : Tracks rel time r handles slots) {k : Nat} (hk : k ∈ r.times) : k < time := by
  obtain ⟨entry, hmem, rfl⟩ := List.mem_map.mp hk
  exact h.made_before entry hmem

/-- The place of a thing in the store and the operation that has made it tell each other. -/
theorem place_eq_iff (h : Tracks rel time r handles slots) {i j k m : Nat}
    (hik : r.times[i]? = some k) (hjm : r.times[j]? = some m) : i = j ↔ k = m := by
  have hi : i < r.times.length := (List.getElem?_eq_some_iff.mp hik).1
  rw [← List.getElem?_inj hi h.distinct, hik, hjm, Option.some.injEq]

theorem origin (h : Tracks rel time r handles slots) {x i : Nat} (hx : handles[x]? = some i) :
    ∃ k, r.origins[x]? = some k ∧ r.times[i]? = some k := by
  have hrel := forall₂_getElem? h.handle x
  rw [hx] at hrel
  generalize r.origins[x]? = k at hrel ⊢
  cases hrel with
  | some hik => exact ⟨_, rfl, hik⟩

/-- Handles are the same if they go back to the same operation, and not otherwise. -/
theorem eq_iff (h : Tracks rel time r handles slots) {x y i j : Nat} (hx : handles[x]? = some i)
    (hy : handles[y]? = some j) : i = j ↔ r.origins[x]? = r.origins[y]? := by
  obtain ⟨k, hxk, hik⟩ := h.origin hx
  obtain ⟨m, hym, hjm⟩ := h.origin hy
  rw [hxk, hym, Option.some.injEq]
  exact h.place_eq_iff hik hjm

theorem holds (h : Tracks rel time r handles slots) {x i : Nat} (hx : handles[x]? = some i) :
    ∃ c d, r.holds? x = some c ∧ slots[i]? = some d ∧ rel c d := by
  obtain ⟨k, hk, hik⟩ := h.origin hx
  obtain ⟨c, d, hc, hd, hr⟩ := h.slot i k hik
  exact ⟨c, d, by rw [Record.holds?, hk, Option.bind_some, hc], hd, hr⟩

theorem share (h : Tracks rel time r handles slots) {x i : Nat} (hx : handles[x]? = some i) :
    Tracks rel time (r.share x) (handles ++ [i]) slots := by
  obtain ⟨k, hk, hik⟩ := h.origin hx
  rw [r.share_eq hk]
  exact ⟨h.size, h.distinct, h.made_before, h.changed_before,
    List.rel_append h.handle (.cons hik .nil), h.slot⟩

theorem change (h : Tracks rel time r handles slots) {x i : Nat} (hx : handles[x]? = some i)
    {f : κ → κ} {g : γ → γ} (hfg : ∀ c d, rel c d → rel (f c) (g d)) :
    Tracks rel time (r.change x f) handles (slots.modify i g) := by
  obtain ⟨k, hk, hik⟩ := h.origin hx
  have hcontents := r.contents?_change hk f
  rw [r.change_eq hk] at hcontents ⊢
  refine ⟨?_, h.distinct, h.made_before, ?_, h.handle, ?_⟩
  · rw [Array.size_modify]
    exact h.size
  · intro entry hmem
    rcases List.mem_append.mp hmem with hold | hnew
    · exact h.changed_before entry hold
    · obtain rfl := List.mem_singleton.mp hnew
      exact h.time_lt (List.mem_of_getElem? hik)
  · intro j n (hn : r.times[j]? = some n)
    obtain ⟨c, d, hc, hd, hr⟩ := h.slot j n hn
    rw [hcontents, Array.getElem?_modify, hc, hd]
    -- The place that is changed is that of the operation whose thing is changed.
    have hplace : i = j ↔ k = n := h.place_eq_iff hik hn
    by_cases hj : i = j
    · rw [if_pos hj, if_pos (hplace.mp hj)]
      exact ⟨f c, g d, rfl, rfl, hfg c d hr⟩
    · rw [if_neg hj, if_neg fun hkn => hj (hplace.mpr hkn)]
      exact ⟨c, d, rfl, rfl, hr⟩

theorem make (h : Tracks rel time r handles slots) {c : κ} {d : γ} (hr : rel c d) :
    Tracks rel (time + 1) (r.make time c) (handles ++ [slots.size]) (slots.push d) := by
  have htimes : (r.make time c).times = r.times ++ [time] := by
    simp [Record.times, Record.make]
  have hold : ∀ {i k : Nat}, r.times[i]? = some k → (r.times ++ [time])[i]? = some k :=
    getElem?_of_extends (List.prefix_append _ _)
  refine ⟨?_, ?_, ?_, ?_, ?_, ?_⟩
  · rw [htimes, List.length_append, h.size, Array.size_push]
    rfl
  · rw [htimes, List.nodup_append]
    refine ⟨h.distinct, List.nodup_singleton time, ?_⟩
    intro k hk m hm hkm
    obtain rfl := List.mem_singleton.mp hm
    exact Nat.lt_irrefl _ (hkm ▸ h.time_lt hk)
  · intro entry hmem
    rcases List.mem_append.mp hmem with hmem | hmem
    · exact Nat.lt_succ_of_lt (h.made_before entry hmem)
    · obtain rfl := List.mem_singleton.mp hmem
      exact Nat.lt_succ_self time
  · intro entry hmem
    exact Nat.lt_succ_of_lt (h.changed_before entry hmem)
  · have hnew : (r.times ++ [time])[slots.size]? = some time := by
      rw [← h.size, List.getElem?_concat_length]
    rw [htimes]
    exact List.rel_append (h.handle.imp fun _ _ => hold) (.cons hnew .nil)
  · intro i k hk
    rw [htimes, List.getElem?_append] at hk
    split at hk
    · rename_i hi
      obtain ⟨c', d', hc, hd, hrel⟩ := h.slot i k hk
      have hne : k ≠ time := Nat.ne_of_lt (h.time_lt (List.mem_of_getElem? hk))
      refine ⟨c', d', ?_, ?_, hrel⟩
      · rw [Record.contents?_make_of_ne r c hne, hc]
      · rw [Array.getElem?_push, if_neg (h.size ▸ Nat.ne_of_lt hi), hd]
    · rename_i hi
      -- The thing made last: nothing was made or changed at this time before.
      obtain ⟨hplace, htime⟩ := List.getElem?_eq_some_iff.mp hk
      have hlast : i = slots.size := by
        rw [List.length_singleton] at hplace
        have hsize := h.size
        omega
      have hk' : k = time := by simpa using htime.symm
      subst hk' hlast
      refine ⟨c, d, ?_, ?_, hr⟩
      · exact r.contents?_make_self c (fun entry hmem => Nat.ne_of_lt (h.made_before entry hmem))
          fun entry hmem => Nat.ne_of_lt (h.changed_before entry hmem)
      · rw [Array.getElem?_push, if_pos rfl]

end Tracks

end PageScript
