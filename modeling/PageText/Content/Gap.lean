/-
PageText/Content/Gap.lean

The bytes of a content stream that are read over: gaps between tokens, which
are blanks and comments, and the data of inline images.
-/
import PageText.Content.Byte

namespace PageText

/-! ### Gaps -/

namespace Gap

/-- The size of the gap at the head of the bytes, `taken` bytes of it having
been read.  A comment runs from a percent sign through the next line end. -/
def sizeFrom : (inComment : Bool) → (taken : Nat) → List UInt8 → Nat
  | _, taken, [] => taken
  | true, taken, b :: rest => sizeFrom (!Byte.isLineEnd b) (taken + 1) rest
  | false, taken, b :: rest =>
    if b == Byte.percent then sizeFrom true (taken + 1) rest
    else if Byte.isBlank b then sizeFrom false (taken + 1) rest
    else taken

/-- The size of the gap at the head of the bytes. -/
def size (bytes : List UInt8) : Nat := sizeFrom false 0 bytes

end Gap

/-! ### Image data -/

namespace ImageData

/-- The bytes start with `EI`, and after it they end or go on with a blank or
a delimiter. -/
def startsWithEnd : List UInt8 → Bool
  | [0x45, 0x49] => true
  | 0x45 :: 0x49 :: b :: _ => !Byte.isRegular b
  | _ => false

/-- The size of image data through its end mark, `taken` bytes having been
read, the last of them a blank when `afterBlank` holds; nothing if no end mark
that follows a blank is there. -/
def sizeFrom? : (afterBlank : Bool) → (taken : Nat) → List UInt8 → Option Nat
  | _, _, [] => none
  | afterBlank, taken, b :: rest =>
    if afterBlank && startsWithEnd (b :: rest) then some (taken + 2)
    else sizeFrom? (Byte.isBlank b) (taken + 1) rest

/-- The size of the image data at the head of the bytes, with the one blank
that separates it from its keyword and with its end mark. -/
def size? : List UInt8 → Option Nat
  | [] => none
  | b :: rest =>
    if Byte.isBlank b then sizeFrom? true 1 rest else sizeFrom? false 0 (b :: rest)

/-- How many bytes are read over for image data: all of them if it does not
end. -/
def size (bytes : List UInt8) : Nat := (size? bytes).getD bytes.length

end ImageData

end PageText
