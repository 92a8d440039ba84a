import PageScript.Proofs.Digits
import PageScript.Proofs.NumeralParts
import PageScript.Text

/-!
# Quoted texts end where they seem to

Between quotes a character stands for itself, has a name behind a backslash, or is given by its code
point in braces. Which of these it is, and where it ends, shows at its front. So a quoted text is
told apart from whatever follows it, also if it holds quotes and backslashes of its own. This does
not depend on which characters are given by their code points.
-/

namespace PageScript

theorem digitChar_inj {m n : Nat} (hm : m < 16) (hn : n < 16) (h : m.digitChar = n.digitChar) :
    m = n := by
  have hcode := (Numeral.toNat_digitChar hm).1.symm.trans
    ((congrArg Char.toNat h).trans (Numeral.toNat_digitChar hn).1)
  split at hcode <;> split at hcode <;> omega

theorem hexDigits_inj {m n : Nat} (h : Nat.toDigits 16 m = Nat.toDigits 16 n) : m = n := by
  induction m using Nat.strongRecOn generalizing n with
  | ind m ih =>
    rw [Nat.toDigits_eq_if (by decide), Nat.toDigits_eq_if (by decide) (n := n)] at h
    by_cases hm : m < 16 <;> by_cases hn : n < 16
    · rw [if_pos hm, if_pos hn] at h
      exact digitChar_inj hm hn (List.cons.inj h).1
    · rw [if_pos hm, if_neg hn] at h
      exact absurd (List.append_eq_singleton_iff.mp h.symm) (by simp)
    · rw [if_neg hm, if_pos hn] at h
      exact absurd (List.append_eq_singleton_iff.mp h) (by simp)
    · rw [if_neg hm, if_neg hn] at h
      obtain ⟨hfront, hlast⟩ := List.append_inj' h rfl
      have hquotient := ih (m / 16) (by omega) hfront
      have hrest := digitChar_inj (Nat.mod_lt m (by decide)) (Nat.mod_lt n (by decide))
        (List.cons.inj hlast).1
      omega

theorem notMem_hexDigits {mark : Char} (hmark : ∀ d < 16, d.digitChar ≠ mark) (n : Nat) :
    mark ∉ Nat.toDigits 16 n := by
  induction n using Nat.strongRecOn with
  | ind n ih =>
    rw [Nat.toDigits_eq_if (by decide)]
    split
    · next hlt => exact fun h => hmark n hlt (List.mem_singleton.mp h).symm
    · next hge =>
      intro h
      rcases List.mem_append.mp h with hfront | hlast
      · exact ih (n / 16) (by omega) hfront
      · exact hmark _ (Nat.mod_lt n (by decide)) (List.mem_singleton.mp hlast).symm

/-- The character of a name that stands behind a backslash. -/
def named : Char → Option Char
  | '"' => some '"'
  | '\\' => some '\\'
  | 'n' => some '\n'
  | 'r' => some '\r'
  | 't' => some '\t'
  | '0' => some (Char.ofNat 0)
  | _ => none

/-- The ways in which a character is written between quotes. -/
inductive Escaped (c : Char) : List Char → Prop where
  | itself (hquote : c ≠ '"') (hslash : c ≠ '\\') : Escaped c [c]
  | byName {name : Char} (hname : named name = some c) : Escaped c ['\\', name]
  | byCode : Escaped c
      ('\\' :: 'u' :: Char.ofNat 0x7B :: (Nat.toDigits 16 c.toNat ++ [Char.ofNat 0x7D]))

variable {c d : Char} {r r' s s' : List Char}

/-- Only an unnamed code point starts with the mark of one. -/
theorem named_ne_mark (hname : named d = some c) : d ≠ 'u' := by
  rintro rfl
  cases hname

theorem Escaped.append_inj (hc : Escaped c s) (hd : Escaped d s') (h : s ++ r = s' ++ r') :
    c = d ∧ r = r' := by
  have hbrace (n : Nat) : Char.ofNat 0x7D ∉ Nat.toDigits 16 n :=
    notMem_hexDigits (by decide) n
  cases hc with
  | itself hquote hslash =>
    cases hd with
    | itself => exact List.cons.inj h
    | byName => exact absurd (List.cons.inj h).1 hslash
    | byCode => exact absurd (List.cons.inj h).1 hslash
  | byName hname =>
    cases hd with
    | itself hquote hslash => exact absurd (List.cons.inj h).1.symm hslash
    | byName hname' =>
      obtain ⟨rfl, hrest⟩ := List.cons.inj (List.cons.inj h).2
      exact ⟨Option.some.inj (hname.symm.trans hname'), hrest⟩
    | byCode => exact absurd (List.cons.inj (List.cons.inj h).2).1 (named_ne_mark hname)
  | byCode =>
    cases hd with
    | itself hquote hslash => exact absurd (List.cons.inj h).1.symm hslash
    | byName hname' =>
      exact absurd (List.cons.inj (List.cons.inj h).2).1.symm (named_ne_mark hname')
    | byCode =>
      simp only [List.cons_append, List.append_assoc, List.cons.injEq, true_and,
        List.nil_append] at h
      obtain ⟨hdigits, hrest⟩ := (append_mark_inj (hbrace _) (hbrace _)).mp h
      exact ⟨Char.toNat_inj.mp (hexDigits_inj hdigits), hrest⟩

theorem Escaped.append_ne_quote (hc : Escaped c s) : s ++ r ≠ '"' :: r' := by
  intro h
  cases hc with
  | itself hquote => exact hquote (List.cons.inj h).1
  | byName => exact absurd (List.cons.inj h).1 (by decide)
  | byCode => exact absurd (List.cons.inj h).1 (by decide)

variable [CharacterSet]

/-- Whichever characters have no shape of their own. -/
theorem escaped_escape (c : Char) : Escaped c (escape c) := by
  unfold escape
  split
  · next h => exact .byName (by rw [h]; rfl)
  split
  · next h => exact .byName (by rw [h]; rfl)
  split
  · next h => exact .byName (by rw [h]; rfl)
  split
  · next h => exact .byName (by rw [h]; rfl)
  split
  · next h => exact .byName (by rw [h]; rfl)
  split
  · next h => exact .byName (by rw [h]; rfl)
  split
  · exact .byCode
  · next hquote hslash _ _ _ _ _ => exact .itself hquote hslash

example : @escape unicode15 (Char.ofNat 0x301) =
    ['\\', 'u', Char.ofNat 0x7B, '3', '0', '1', Char.ofNat 0x7D] := by
  decide +kernel

/-- A quote that is part of the text is never taken for the one at its end. -/
theorem flatMap_escape_inj (h : s.flatMap escape ++ '"' :: r = s'.flatMap escape ++ '"' :: r') :
    s = s' ∧ r = r' := by
  induction s generalizing s' with
  | nil =>
    cases s' with
    | nil => exact ⟨rfl, (List.cons.inj h).2⟩
    | cons d s' =>
      rw [List.flatMap_cons, List.append_assoc] at h
      exact absurd h.symm (escaped_escape d).append_ne_quote
  | cons c s ih =>
    rw [List.flatMap_cons, List.append_assoc] at h
    cases s' with
    | nil => exact absurd h (escaped_escape c).append_ne_quote
    | cons d s' =>
      rw [List.flatMap_cons, List.append_assoc] at h
      obtain ⟨rfl, hrest⟩ := (escaped_escape c).append_inj (escaped_escape d) h
      obtain ⟨rfl, rfl⟩ := ih hrest
      exact ⟨rfl, rfl⟩

theorem quote_append_inj {s t : String} (h : (quote s).toList ++ r = (quote t).toList ++ r') :
    s = t ∧ r = r' := by
  simp only [quote, String.toList_ofList, List.cons_append, List.append_assoc, List.cons.injEq,
    true_and, List.nil_append] at h
  obtain ⟨htext, hrest⟩ := flatMap_escape_inj h
  exact ⟨String.toList_inj.mp htext, hrest⟩

end PageScript
