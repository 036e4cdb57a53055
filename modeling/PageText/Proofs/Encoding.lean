/-
PageText/Proofs/Encoding.lean

Texts written as bytes and read back.  Every text is what the decoder of UTF-8
makes of its UTF-8 bytes (`Utf8.decode_encode`), and texts whose characters are
at most U+00FF are what the decoder of one byte per character makes of those
bytes (`Latin1.decode_encode`).

UTF-8 is gone through by the number of bytes of a character: the lead byte
promises the ranges that the bytes after it lie in (`lead?_two`, `lead?_three`,
`lead?_four`), and each of them gives its six bits (`takeTail_cons`).
-/
import Mathlib
import PageText.Text.Latin1
import PageText.Text.Utf8

namespace PageText

namespace Utf8

/-- The bytes of a text. -/
def encode (text : String) : List UInt8 := text.toUTF8.data.toList

theorem encode_eq_flatMap (text : String) :
    encode text = text.toList.flatMap String.utf8EncodeChar := by
  rw [encode, String.toUTF8_eq_toByteArray, ← String.utf8Encode_toList, List.utf8Encode,
    List.toList_data_toByteArray]

/-! ### Lead bytes -/

theorem lead?_one {n : Nat} (h : n ≤ 0x7F) : lead? (UInt8.ofNat n) = some ⟨n, []⟩ := by
  have hall : ∀ n < 0x80, lead? (UInt8.ofNat n) = some ⟨n, []⟩ := by decide +kernel
  exact hall n (Nat.lt_succ_of_le h)

theorem lead?_two {n : Nat} (h : 2 ≤ n) (h' : n < 0x20) :
    lead? (UInt8.ofNat (n + 0xC0)) = some ⟨n, [continuation]⟩ := by
  have hall : ∀ n < 0x20, 2 ≤ n →
      lead? (UInt8.ofNat (n + 0xC0)) = some ⟨n, [continuation]⟩ := by decide +kernel
  exact hall n h' h

/-- Three bytes do not stand for what two could, nor for surrogates. -/
theorem lead?_three {n : Nat} (h : n < 0x10) :
    lead? (UInt8.ofNat (n + 0xE0))
      = some ⟨n, [⟨if n = 0 then 0xA0 else 0x80, if n = 0xD then 0x9F else 0xBF⟩,
        continuation]⟩ := by
  have hall : ∀ n < 0x10, lead? (UInt8.ofNat (n + 0xE0))
      = some ⟨n, [⟨if n = 0 then 0xA0 else 0x80, if n = 0xD then 0x9F else 0xBF⟩,
        continuation]⟩ := by decide +kernel
  exact hall n h

/-- Four bytes do not stand for what three could, nor for more than U+10FFFF. -/
theorem lead?_four {n : Nat} (h : n < 5) :
    lead? (UInt8.ofNat (n + 0xF0))
      = some ⟨n, [⟨if n = 0 then 0x90 else 0x80, if n = 4 then 0x8F else 0xBF⟩,
        continuation, continuation]⟩ := by
  have hall : ∀ n < 5, lead? (UInt8.ofNat (n + 0xF0))
      = some ⟨n, [⟨if n = 0 then 0x90 else 0x80, if n = 4 then 0x8F else 0xBF⟩,
        continuation, continuation]⟩ := by decide +kernel
  exact hall n h

/-! ### The bytes after them -/

/-- A byte in its range gives six bits. -/
theorem takeTail_cons {n m : Nat} {range : ByteRange} (hm : m < 0x40)
    (hlow : range.low.toNat ≤ m + 0x80) (hhigh : m + 0x80 ≤ range.high.toNat)
    (ranges : List ByteRange) (rest : List UInt8) :
    takeTail n (range :: ranges) (UInt8.ofNat (m + 0x80) :: rest)
      = ((takeTail (n * 64 + m) ranges rest).1, (takeTail (n * 64 + m) ranges rest).2 + 1) := by
  have hbyte : (UInt8.ofNat (m + 0x80)).toNat = m + 0x80 :=
    UInt8.toNat_ofNat_of_lt (by rw [UInt8.size]; omega)
  have hmem : range.mem (UInt8.ofNat (m + 0x80)) = true := by
    simp only [ByteRange.mem, UInt8.le_iff_toNat_le, hbyte, Bool.and_eq_true, decide_eq_true_eq]
    exact ⟨hlow, hhigh⟩
  have hbits : (UInt8.ofNat (m + 0x80)).toNat % 64 = m := by
    rw [hbyte]
    omega
  rw [takeTail, if_pos hmem, hbits]

theorem takeTail_continuation {n m : Nat} (hm : m < 0x40) (ranges : List ByteRange)
    (rest : List UInt8) :
    takeTail n (continuation :: ranges) (UInt8.ofNat (m + 0x80) :: rest)
      = ((takeTail (n * 64 + m) ranges rest).1, (takeTail (n * 64 + m) ranges rest).2 + 1) := by
  have hhigh : m + 0x80 ≤ continuation.high.toNat := by
    show m + 0x80 ≤ 0xBF
    omega
  exact takeTail_cons hm (Nat.le_add_left _ _) hhigh ranges rest

/-- A byte in a range that is narrowed under some condition gives six bits, too. -/
theorem takeTail_narrowed {n m : Nat} {p q : Prop} [Decidable p] [Decidable q] {low high : UInt8}
    (hm : m < 0x40) (hlow : p → low.toNat ≤ m + 0x80) (hhigh : q → m + 0x80 ≤ high.toNat)
    (ranges : List ByteRange) (rest : List UInt8) :
    takeTail n (⟨if p then low else 0x80, if q then high else 0xBF⟩ :: ranges)
        (UInt8.ofNat (m + 0x80) :: rest)
      = ((takeTail (n * 64 + m) ranges rest).1, (takeTail (n * 64 + m) ranges rest).2 + 1) := by
  have hleast : (if p then low else 0x80).toNat ≤ m + 0x80 := by
    split
    · next hp => exact hlow hp
    · exact Nat.le_add_left _ _
  have hgreatest : m + 0x80 ≤ (if q then high else 0xBF).toNat := by
    split
    · next hq => exact hhigh hq
    · show m + 0x80 ≤ 0xBF
      omega
  exact takeTail_cons hm hleast hgreatest ranges rest

/-! ### Characters -/

/-- The bytes of a character are read as that character, and no more of them. -/
theorem head_utf8EncodeChar (c : Char) (rest : List UInt8) :
    ∃ b tail, String.utf8EncodeChar c = b :: tail ∧ head b (tail ++ rest) = (c, tail.length) := by
  have hvalid : c.val.toNat < 0xD800 ∨ 0xDFFF < c.val.toNat ∧ c.val.toNat < 0x110000 := c.valid
  have hchar : Char.ofNat c.val.toNat = c := Char.ofNat_toNat c
  have hsix : ∀ n : Nat, n % 0x40 < 0x40 := fun n => Nat.mod_lt n (by decide)
  generalize hv : c.val.toNat = v at hvalid hchar
  simp only [String.utf8EncodeChar, hv]
  -- in each case the bits of the bytes add up to the number of the character
  split
  · next hone =>
    refine ⟨_, _, rfl, ?_⟩
    rw [head, lead?_one hone]
    exact Prod.ext hchar rfl
  split
  · next hone htwo =>
    have hsum : v / 64 % 0x20 * 64 + v % 0x40 = v := by omega
    refine ⟨_, _, rfl, ?_⟩
    rw [head, lead?_two (by omega) (by omega)]
    simp only [List.cons_append, takeTail_continuation (hsix v), hsum]
    exact Prod.ext hchar rfl
  split
  · next hone htwo hthree =>
    have hsum : (v / 4096 % 0x10 * 64 + v / 64 % 0x40) * 64 + v % 0x40 = v := by omega
    have hlow : v / 4096 % 0x10 = 0 → 0xA0 ≤ v / 64 % 0x40 + 0x80 := by omega
    have hhigh : v / 4096 % 0x10 = 0xD → v / 64 % 0x40 + 0x80 ≤ 0x9F := by omega
    refine ⟨_, _, rfl, ?_⟩
    rw [head, lead?_three (by omega)]
    simp only [List.cons_append]
    rw [takeTail_narrowed (hsix _) hlow hhigh]
    simp only [takeTail_continuation (hsix v), hsum]
    exact Prod.ext hchar rfl
  · next hone htwo hthree =>
    have hsum : ((v / 262144 % 0x08 * 64 + v / 4096 % 0x40) * 64 + v / 64 % 0x40) * 64 + v % 0x40
        = v := by omega
    have hlow : v / 262144 % 0x08 = 0 → 0x90 ≤ v / 4096 % 0x40 + 0x80 := by omega
    have hhigh : v / 262144 % 0x08 = 4 → v / 4096 % 0x40 + 0x80 ≤ 0x8F := by omega
    refine ⟨_, _, rfl, ?_⟩
    rw [head, lead?_four (by omega)]
    simp only [List.cons_append]
    rw [takeTail_narrowed (hsix _) hlow hhigh]
    simp only [takeTail_continuation (hsix _), hsum]
    exact Prod.ext hchar rfl

theorem decodeFrom_skip (taken : List UInt8) (rest : List UInt8) :
    decodeFrom taken.length (taken ++ rest) = decodeFrom 0 rest := by
  induction taken with
  | nil => rfl
  | cons b taken ih => exact ih

theorem decodeFrom_utf8EncodeChar (c : Char) (rest : List UInt8) :
    decodeFrom 0 (String.utf8EncodeChar c ++ rest) = c :: decodeFrom 0 rest := by
  obtain ⟨b, tail, hbytes, hhead⟩ := head_utf8EncodeChar c rest
  rw [hbytes, List.cons_append, decodeFrom, hhead]
  exact congrArg (c :: ·) (decodeFrom_skip tail rest)

/-- **Every text is read back** from its UTF-8 bytes. -/
theorem decode_encode (text : String) : decode (encode text) = text := by
  have hchars : ∀ chars : List Char,
      decodeFrom 0 (chars.flatMap String.utf8EncodeChar) = chars := by
    intro chars
    induction chars with
    | nil => rfl
    | cons c rest ih => rw [List.flatMap_cons, decodeFrom_utf8EncodeChar, ih]
  rw [decode, encode_eq_flatMap, hchars, String.ofList_toList]

end Utf8

namespace Latin1

/-- A character that is written as one byte. -/
abbrev Narrow := { c : Char // c.toNat ≤ 0xFF }

/-- The bytes of a text, one for each character. -/
def encode (text : List Narrow) : List UInt8 := text.map fun c => UInt8.ofNat c.val.toNat

/-- **Every text of narrow characters is read back** from its bytes. -/
theorem decode_encode (text : List Narrow) :
    decode (encode text) = String.ofList (text.map Subtype.val) := by
  rw [decode, encode, List.map_map]
  refine congrArg String.ofList (List.map_congr_left fun c _ => ?_)
  show Char.ofNat (UInt8.ofNat c.val.toNat).toNat = c.val
  rw [UInt8.toNat_ofNat_of_lt' (Nat.lt_succ_of_le c.property), Char.ofNat_toNat]

theorem toNat_char (b : UInt8) : (char b).toNat = b.toNat := by
  have hvalid : b.toNat.isValidChar := .inl (Nat.lt_trans b.toNat_lt (by decide))
  rw [char, Char.toNat_ofNat, if_pos hvalid]

/-- Bytes read as text are its characters, one for each. -/
theorem toNat_decode (bytes : List UInt8) :
    (decode bytes).toList.map Char.toNat = bytes.map UInt8.toNat := by
  rw [decode, String.toList_ofList, List.map_map]
  exact List.map_congr_left fun b _ => toNat_char b

end Latin1

end PageText
