/-
PageText/Content/Quotation.lean

The strings of a content stream.

A literal string stands in parentheses.  Parentheses inside it balance or are
escaped; a backslash escapes the byte after it.  Its extent needs only the
depth of open parentheses (`literalEnd?`); the escapes are resolved in the
body afterwards (`unescape`).

A hexadecimal string stands in angle brackets and holds digits and blanks.  A
last digit without a partner counts as if a zero followed.
-/
import PageText.Content.Byte

namespace PageText.Quotation

/-! ### Literal strings -/

/-- How many bytes are read when the last of `depth` open parentheses closes,
`taken` bytes having been read; nothing if the bytes end before that. -/
def literalEnd? : (depth taken : Nat) → List UInt8 → Option Nat
  | _, _, [] => none
  | depth, taken, b :: rest =>
    if b == Byte.backslash then
      match rest with
      | [] => none
      | _ :: rest => literalEnd? depth (taken + 2) rest
    else if b == Byte.openParen then literalEnd? (depth + 1) (taken + 1) rest
    else if b == Byte.closeParen then
      if depth ≤ 1 then some (taken + 1) else literalEnd? (depth - 1) (taken + 1) rest
    else literalEnd? depth (taken + 1) rest

/-- The byte that a letter stands for after a backslash; any other byte stands
for itself. -/
def letterMeaning (b : UInt8) : UInt8 :=
  if b == 0x6E then 0x0A
  else if b == 0x72 then 0x0D
  else if b == 0x74 then 0x09
  else if b == 0x62 then 0x08
  else if b == 0x66 then 0x0C
  else b

/-- The number that up to three octal digits denote. -/
def octalValue (digits : List UInt8) : Nat :=
  digits.foldl (fun n d => 8 * n + (Byte.digitValue d).toNat) 0

/-- The byte that up to three octal digits denote, modulo 256. -/
def octalByte (digits : List UInt8) : UInt8 := (octalValue digits).toUInt8

/-- The body of a literal string with its escapes resolved: octal digits,
letters for control bytes, and an escaped line end, which stands for nothing. -/
def unescape : List UInt8 → List UInt8
  | [] => []
  | b :: rest =>
    if b != Byte.backslash then b :: unescape rest
    else match rest with
      | [] => []
      | e :: rest =>
        if Byte.isOctal e then
          match rest with
          | [] => [octalByte [e]]
          | e₂ :: rest₂ =>
            if Byte.isOctal e₂ then
              match rest₂ with
              | [] => [octalByte [e, e₂]]
              | e₃ :: rest₃ =>
                if Byte.isOctal e₃ then octalByte [e, e₂, e₃] :: unescape rest₃
                else octalByte [e, e₂] :: unescape (e₃ :: rest₃)
            else octalByte [e] :: unescape (e₂ :: rest₂)
        else if e == Byte.lineFeed then unescape rest
        else if e == Byte.carriageReturn then
          match rest with
          | [] => []
          | l :: rest =>
            if l == Byte.lineFeed then unescape rest else unescape (l :: rest)
        else letterMeaning e :: unescape rest

/-! ### Hexadecimal strings -/

/-- The byte may stand between angle brackets. -/
def isHexBody (b : UInt8) : Bool := Byte.isHex b || Byte.isBlank b

/-- Half bytes joined in pairs; one left over is a high half. -/
def pairs : List UInt8 → List UInt8
  | [] => []
  | [high] => [Byte.ofHalves high 0]
  | high :: low :: rest => Byte.ofHalves high low :: pairs rest

/-- The bytes that the digits of a hexadecimal string denote. -/
def unhex (body : List UInt8) : List UInt8 := pairs (body.filterMap Byte.hexValue?)

end PageText.Quotation
