/-
PageText/Content/Byte.lean

The classes of bytes in a content stream: blanks separate tokens, delimiters
begin or end them, and every other byte is regular.
-/

namespace PageText.Byte

/-! ### Named bytes -/

abbrev lineFeed : UInt8 := 0x0A
abbrev carriageReturn : UInt8 := 0x0D
abbrev hash : UInt8 := 0x23
abbrev percent : UInt8 := 0x25
abbrev openParen : UInt8 := 0x28
abbrev closeParen : UInt8 := 0x29
abbrev plus : UInt8 := 0x2B
abbrev minus : UInt8 := 0x2D
abbrev point : UInt8 := 0x2E
abbrev slash : UInt8 := 0x2F
abbrev less : UInt8 := 0x3C
abbrev greater : UInt8 := 0x3E
abbrev openBracket : UInt8 := 0x5B
abbrev backslash : UInt8 := 0x5C
abbrev closeBracket : UInt8 := 0x5D
abbrev openBrace : UInt8 := 0x7B
abbrev closeBrace : UInt8 := 0x7D

/-! ### Classes -/

/-- Space, tab, line feed, carriage return, form feed and the zero byte. -/
def isBlank (b : UInt8) : Bool :=
  b == 0x20 || b == 0x09 || b == carriageReturn || b == lineFeed || b == 0x00 || b == 0x0C

/-- Brackets of all four sorts, the slash and the percent sign. -/
def isDelimiter (b : UInt8) : Bool :=
  b == openParen || b == closeParen || b == less || b == greater || b == openBracket
    || b == closeBracket || b == openBrace || b == closeBrace || b == slash || b == percent

/-- Neither a blank nor a delimiter. -/
def isRegular (b : UInt8) : Bool := !isBlank b && !isDelimiter b

/-- A byte that ends a comment. -/
def isLineEnd (b : UInt8) : Bool := b == lineFeed || b == carriageReturn

/-- A decimal digit. -/
def isDigit (b : UInt8) : Bool := 0x30 ≤ b && b ≤ 0x39

/-- An octal digit. -/
def isOctal (b : UInt8) : Bool := 0x30 ≤ b && b ≤ 0x37

/-- The value of a decimal or octal digit. -/
def digitValue (b : UInt8) : UInt8 := b - 0x30

/-- The value of a hexadecimal digit in either case. -/
def hexValue? (b : UInt8) : Option UInt8 :=
  if isDigit b then some (b - 0x30)
  else if 0x61 ≤ b && b ≤ 0x66 then some (b - 0x61 + 10)
  else if 0x41 ≤ b && b ≤ 0x46 then some (b - 0x41 + 10)
  else none

/-- A hexadecimal digit in either case. -/
def isHex (b : UInt8) : Bool := (hexValue? b).isSome

/-- The byte with the given high and low half. -/
def ofHalves (high low : UInt8) : UInt8 := high <<< 4 ||| low

end PageText.Byte
