/-
PageText/Text/Utf8.lean

Bytes read as UTF-8 text, with U+FFFD in place of what is no UTF-8.

The lead byte of a character says which ranges the bytes after it lie in.
Reading takes as many of them as fit.  When all do, they make one character;
otherwise the lead byte and the bytes that did fit are replaced together by
one U+FFFD, and reading goes on at the first byte that did not fit.
-/

namespace PageText.Utf8

/-- A range of byte values, both ends included. -/
structure ByteRange where
  low : UInt8
  high : UInt8
deriving DecidableEq

/-- The byte lies in the range. -/
def ByteRange.mem (range : ByteRange) (b : UInt8) : Bool := range.low ≤ b && b ≤ range.high

/-- The bytes that continue a character. -/
def continuation : ByteRange := ⟨0x80, 0xBF⟩

/-- What a lead byte promises: the bits it gives to the character and the
ranges of the bytes that follow. -/
structure Lead where
  bits : Nat
  ranges : List ByteRange
deriving DecidableEq

/-- The promise of a lead byte.  The first continuation is narrowed where a
wider range would allow a longer form than needed, a surrogate or a number
above U+10FFFF. -/
def lead? (b : UInt8) : Option Lead :=
  if b ≤ 0x7F then some ⟨b.toNat, []⟩
  else if 0xC2 ≤ b && b ≤ 0xDF then some ⟨b.toNat - 0xC0, [continuation]⟩
  else if b = 0xE0 then some ⟨0, [⟨0xA0, 0xBF⟩, continuation]⟩
  else if b = 0xED then some ⟨0xD, [⟨0x80, 0x9F⟩, continuation]⟩
  else if 0xE1 ≤ b && b ≤ 0xEF then some ⟨b.toNat - 0xE0, [continuation, continuation]⟩
  else if b = 0xF0 then some ⟨0, [⟨0x90, 0xBF⟩, continuation, continuation]⟩
  else if 0xF1 ≤ b && b ≤ 0xF3 then
    some ⟨b.toNat - 0xF0, [continuation, continuation, continuation]⟩
  else if b = 0xF4 then some ⟨4, [⟨0x80, 0x8F⟩, continuation, continuation]⟩
  else none

/-- The character that stands for bytes that are no UTF-8. -/
def replacement : Char := '\uFFFD'

/-- Takes the bytes that fit `ranges`, six bits each, after the bits `n`.  The
count is that of the bytes taken. -/
def takeTail (n : Nat) : List ByteRange → List UInt8 → Char × Nat
  | [], _ => (Char.ofNat n, 0)
  | _ :: _, [] => (replacement, 0)
  | range :: ranges, b :: rest =>
    if range.mem b then
      let (c, taken) := takeTail (n * 64 + b.toNat % 64) ranges rest
      (c, taken + 1)
    else (replacement, 0)

/-- The character at the head of the bytes `b :: rest`, and how many bytes of
`rest` belong to it. -/
def head (b : UInt8) (rest : List UInt8) : Char × Nat :=
  match lead? b with
  | some lead => takeTail lead.bits lead.ranges rest
  | none => (replacement, 0)

/-- Decodes after skipping `skip` bytes that belong to the character before. -/
def decodeFrom : (skip : Nat) → List UInt8 → List Char
  | _, [] => []
  | skip + 1, _ :: rest => decodeFrom skip rest
  | 0, b :: rest =>
    let (c, taken) := head b rest
    c :: decodeFrom taken rest

/-- The text that the bytes stand for. -/
def decode (bytes : List UInt8) : String := String.ofList (decodeFrom 0 bytes)

end PageText.Utf8
