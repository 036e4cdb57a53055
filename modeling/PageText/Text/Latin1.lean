/-
PageText/Text/Latin1.lean

Bytes read as text one character per byte: byte `n` is the character U+00`n`.
-/

namespace PageText.Latin1

/-- The character of a byte. -/
def char (b : UInt8) : Char := Char.ofNat b.toNat

/-- The text that the bytes stand for. -/
def decode (bytes : List UInt8) : String := String.ofList (bytes.map char)

end PageText.Latin1
