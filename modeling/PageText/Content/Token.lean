/-
PageText/Content/Token.lean

The tokens of a content stream.  `Token.scan` reads the token that starts at a
byte which is neither a blank nor the start of a comment, and says how many of
the bytes after that first one it took; so every scan makes progress, and what
it left is the rest of the bytes after `more` of them.

A scan that finds no token has still read something: a lone `>`, a sign or
point without digits, a hexadecimal string up to its first bad byte, or, when
a string does not end, everything.
-/
import PageText.Content.Name
import PageText.Content.Numeral
import PageText.Content.Quotation
import PageText.Error
import PageText.Text.Utf8

namespace PageText

/-- A token. -/
inductive Token where
  | number (value : Float)
  | bool (value : Bool)
  | name (text : String)
  | string (bytes : List UInt8)
  | keyword (bytes : List UInt8)
  | openArray
  | closeArray
  | openDict
  | closeDict
deriving DecidableEq

namespace Token

/-- Why a scan found no token. -/
inductive Failure where
  /-- A fault, at an offset from the first byte that was scanned. -/
  | fault (offset : Nat) (fault : TokenFault)
  /-- The bytes ended before the token did. -/
  | ended
deriving DecidableEq

/-- The failure of a scan that started at `start`, as an error. -/
def Failure.error (start : Nat) : Failure → Error
  | .fault offset cause => .badToken (start + offset) cause
  | .ended => .unexpectedEnd

/-- What a scan found, and how many bytes it took after the first one. -/
structure Scan where
  found : Except Failure Token
  more : Nat

namespace Scan

/-- A token that took `more` bytes after the first one. -/
def token (t : Token) (more : Nat) : Scan := ⟨.ok t, more⟩

/-- The name after a slash. -/
def name (rest : List UInt8) : Scan :=
  let body := rest.takeWhile Byte.isRegular
  token (.name (Utf8.decode (Name.unescape body))) body.length

/-- The literal string after an opening parenthesis. -/
def literal (rest : List UInt8) : Scan :=
  match Quotation.literalEnd? 1 0 rest with
  | some taken => token (.string (Quotation.unescape (rest.take (taken - 1)))) taken
  | none => ⟨.error .ended, rest.length⟩

/-- The hexadecimal string after an opening angle bracket. -/
def hex (rest : List UInt8) : Scan :=
  let body := rest.takeWhile Quotation.isHexBody
  match rest.dropWhile Quotation.isHexBody with
  | [] => ⟨.error .ended, rest.length⟩
  | b :: _ =>
    if b == Byte.greater then token (.string (Quotation.unhex body)) (body.length + 1)
    else ⟨.error (.fault (body.length + 1) (.badHexDigit b)), body.length + 1⟩

/-- The number that starts with the byte `b`. -/
def number (b : UInt8) (rest : List UInt8) : Scan :=
  let numeral := Numeral.ofBytes (b :: rest)
  let more := numeral.bytes.length - 1
  if numeral.hasDigits then token (.number numeral.value) more
  else ⟨.error (.fault 0 .noDigits), more⟩

/-- The token that a run of regular bytes is: the words `true` and `false` are
values, every other one is a keyword. -/
def word (bytes : List UInt8) : Token :=
  if bytes = [0x74, 0x72, 0x75, 0x65] then .bool true
  else if bytes = [0x66, 0x61, 0x6C, 0x73, 0x65] then .bool false
  else .keyword bytes

/-- The run of regular bytes that starts with `b`.  A delimiter that starts no
other token is a keyword by itself. -/
def keyword (b : UInt8) (rest : List UInt8) : Scan :=
  if Byte.isRegular b then
    let body := rest.takeWhile Byte.isRegular
    token (word (b :: body)) body.length
  else token (.keyword [b]) 0

end Scan

/-- The byte starts a number. -/
def startsNumber (b : UInt8) : Bool :=
  b == Byte.plus || b == Byte.minus || b == Byte.point || Byte.isDigit b

/-- Reads the token that starts with the byte `b`, which is neither a blank
nor a percent sign. -/
def scan (b : UInt8) (rest : List UInt8) : Scan :=
  if b == Byte.slash then .name rest
  else if b == Byte.openParen then .literal rest
  else if b == Byte.less then
    if rest.head? == some Byte.less then .token .openDict 1 else .hex rest
  else if b == Byte.greater then
    if rest.head? == some Byte.greater then .token .closeDict 1
    else ⟨.error (.fault 0 .loneAngle), 0⟩
  else if b == Byte.openBracket then .token .openArray 0
  else if b == Byte.closeBracket then .token .closeArray 0
  else if startsNumber b then .number b rest
  else .keyword b rest

end Token

end PageText
