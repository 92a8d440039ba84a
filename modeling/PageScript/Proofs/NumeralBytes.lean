import PageScript.Proofs.Numerals

/-!
# Reading a numeral by bytes

A text is a sequence of bytes, and a character may take several of them. The sign of a numeral is
recognised by its byte, and the mark of a radix by its two bytes; each is then cut off the text. A
cut inside a character has no result.

Main statement: reading by bytes has a result for every text, and it is the one of reading by
characters. The bytes of a sign and of a mark are whole characters, and no byte of another
character is one of them.
-/

namespace PageScript

/-- A text cut in two before a byte, unless that is inside a character or beyond the end. -/
def cutAt? (s : String) (i : Nat) : Option (String × String) :=
  if h : String.Pos.Raw.isValid s ⟨i⟩ = true then
    let p : s.Pos := ⟨⟨i⟩, String.Pos.Raw.isValid_eq_true_iff.mp h⟩
    some ((s.sliceTo p).copy, (s.sliceFrom p).copy)
  else none

theorem cutAt?_eq_some_iff {s front back : String} {i : Nat} :
    cutAt? s i = some (front, back) ↔ s = front ++ back ∧ front.utf8ByteSize = i := by
  constructor
  · intro h
    rw [cutAt?] at h
    split at h
    · rename_i hvalid
      obtain ⟨rfl, rfl⟩ := Prod.mk.inj (Option.some.inj h)
      have hsplits := String.Pos.splits (s := s)
        ⟨⟨i⟩, String.Pos.Raw.isValid_eq_true_iff.mp hvalid⟩
      exact ⟨hsplits.eq_append, (congrArg String.Pos.Raw.byteIdx hsplits.offset_eq_rawEndPos).symm⟩
    · cases h
  · rintro ⟨hs, rfl⟩
    have hvalid : String.Pos.Raw.IsValid s ⟨front.utf8ByteSize⟩ :=
      String.Pos.Raw.isValid_iff_exists_append.mpr ⟨front, back, hs, rfl⟩
    have hsplits : String.Pos.Splits (s := s) ⟨⟨front.utf8ByteSize⟩, hvalid⟩ front back := ⟨hs, rfl⟩
    rw [cutAt?, dif_pos (String.Pos.Raw.isValid_eq_true_iff.mpr hvalid)]
    simp only [hsplits.copy_sliceTo_eq, hsplits.copy_sliceFrom_eq]

theorem cutAt?_append (front back : List Char) (i : Nat)
    (hi : (String.ofList front).utf8ByteSize = i) :
    cutAt? (String.ofList (front ++ back)) i = some (String.ofList front, String.ofList back) :=
  cutAt?_eq_some_iff.mpr ⟨String.ofList_append, hi⟩

def firstByte? (s : String) : Option UInt8 := s.toByteArray.data[0]?

theorem firstByte?_cons (c : Char) (cs : List Char) :
    firstByte? (String.ofList (c :: cs)) = (String.utf8EncodeChar c).head? := by
  have hpos : 0 < (String.utf8EncodeChar c).toArray.size :=
    List.length_pos_iff.mpr String.utf8EncodeChar_ne_nil
  rw [firstByte?, String.toByteArray_ofList, List.utf8Encode_cons, List.utf8Encode_singleton,
    ByteArray.data_append, List.data_toByteArray, Array.getElem?_append_left hpos,
    List.getElem?_toArray, List.head?_eq_getElem?]

/-- The first byte of a character tells whether it is a given one of ASCII. -/
theorem head?_utf8EncodeChar_iff {c a : Char} (ha : a.toNat ≤ 127) :
    (String.utf8EncodeChar c).head? = some (UInt8.ofNat a.toNat) ↔ c = a := by
  have heq : c = a ↔ c.toNat = a.toNat := Char.toNat_inj.symm
  have hbyte : ∀ n, UInt8.ofNat n = UInt8.ofNat a.toNat ↔ n % 256 = a.toNat := by
    intro n
    rw [← UInt8.toNat_inj, UInt8.toNat_ofNat', UInt8.toNat_ofNat']
    omega
  rw [heq, String.utf8EncodeChar]
  change _ ↔ c.val.toNat = a.toNat
  split_ifs <;> rw [List.head?_cons, Option.some.injEq, hbyte] <;> omega

namespace Numeral

/-- At most one sign, by its byte, and what follows it. -/
def signBytes? (s : String) : Option (Bool × String) :=
  if firstByte? s = some 45 then (cutAt? s 1).map fun cut => (true, cut.2)
  else if firstByte? s = some 43 then (cutAt? s 1).map fun cut => (false, cut.2)
  else some (false, s)

/-- The radix that a mark of two bytes announces, and what follows the mark. -/
def radixBytes? (s : String) : Option (Nat × String) :=
  let window := (cutAt? s 2).map Prod.fst
  if window = some "0x" ∨ window = some "0X" then (cutAt? s 2).map fun cut => (16, cut.2)
  else some (10, s)

/-- A numeral, with its sign and its mark cut off at bytes. -/
def readBytes? (text : String) : Option Numeral := do
  let (negative, unsigned) ← signBytes? (String.ofList (trimStart text.toList))
  let (radix, rest) ← radixBytes? unsigned
  return ⟨negative, radix, takeDigits radix rest.toList⟩

theorem signBytes?_eq (cs : List Char) :
    signBytes? (String.ofList cs) = some ((takeSign cs).1, String.ofList (takeSign cs).2) := by
  cases cs with
  | nil => rfl
  | cons c cs =>
    have hminus : firstByte? (String.ofList (c :: cs)) = some 45 ↔ c = '-' := by
      rw [firstByte?_cons]
      exact head?_utf8EncodeChar_iff (a := '-') (by decide)
    have hplus : firstByte? (String.ofList (c :: cs)) = some 43 ↔ c = '+' := by
      rw [firstByte?_cons]
      exact head?_utf8EncodeChar_iff (a := '+') (by decide)
    rw [signBytes?, takeSign_cons]
    by_cases hm : c = '-'
    · have hcut : cutAt? (String.ofList (c :: cs)) 1 = some ("-", String.ofList cs) :=
        hm ▸ cutAt?_append ['-'] cs 1 rfl
      rw [if_pos (hminus.mpr hm), if_pos hm, hcut]
      rfl
    · rw [if_neg (mt hminus.mp hm), if_neg hm]
      by_cases hp : c = '+'
      · have hcut : cutAt? (String.ofList (c :: cs)) 1 = some ("+", String.ofList cs) :=
          hp ▸ cutAt?_append ['+'] cs 1 rfl
        rw [if_pos (hplus.mpr hp), if_pos hp, hcut]
        rfl
      · rw [if_neg (mt hplus.mp hp), if_neg hp]

/-- A window shows characters of its width exactly if the text starts with them. -/
theorem window_eq_iff (front cs : List Char) (i : Nat)
    (hi : (String.ofList front).utf8ByteSize = i) :
    (cutAt? (String.ofList cs) i).map Prod.fst = some (String.ofList front) ↔ front <+: cs := by
  constructor
  · intro h
    obtain ⟨⟨_, back⟩, hcut, rfl⟩ := Option.map_eq_some_iff.mp h
    refine ⟨back.toList, ?_⟩
    have htext := (cutAt?_eq_some_iff.mp hcut).1
    rw [← String.toList_ofList (l := cs), htext, String.toList_append, String.toList_ofList]
  · rintro ⟨back, rfl⟩
    rw [cutAt?_append front back i hi]
    rfl

theorem radixBytes?_eq (cs : List Char) :
    radixBytes? (String.ofList cs) = some ((takeRadix cs).1, String.ofList (takeRadix cs).2) := by
  have hx := window_eq_iff ['0', 'x'] cs 2 rfl
  have hX := window_eq_iff ['0', 'X'] cs 2 rfl
  rw [radixBytes?]
  by_cases hmark : ['0', 'x'] <+: cs ∨ ['0', 'X'] <+: cs
  · rw [if_pos (hmark.imp hx.mpr hX.mpr)]
    rcases hmark with ⟨rest, rfl⟩ | ⟨rest, rfl⟩
    · rw [cutAt?_append ['0', 'x'] rest 2 rfl]
      rfl
    · rw [cutAt?_append ['0', 'X'] rest 2 rfl]
      rfl
  · obtain ⟨hnx, hnX⟩ := not_or.mp hmark
    rw [if_neg (not_or.mpr ⟨mt hx.mp hnx, mt hX.mp hnX⟩), takeRadix_of_unmarked hnx hnX]

/-- No cut falls inside a character, and reading by bytes is reading by characters. -/
theorem readBytes?_eq (text : String) : readBytes? text = some (read text.toList) := by
  simp only [readBytes?, signBytes?_eq, radixBytes?_eq, Option.bind_eq_bind, Option.bind_some,
    String.toList_ofList]
  rfl

end Numeral

end PageScript
