/-
PageText/Text/Quoted.lean

Characters and strings in quotes for messages.  Characters that have no shape
of their own, or that attach to the character before them, are written as
their code point in hexadecimal, so that a message shows what it names.
-/
import PageText.Text.Unseen

namespace PageText.Quoted

/-- The character as its code point. -/
def codePoint (c : Char) : List Char :=
  ['\\', 'u', '\x7b'] ++ Nat.toDigits 16 c.toNat ++ ['\x7d']

/-- A character as it stands between the quotes `quote`. -/
def body (quote c : Char) : List Char :=
  if c = '\x00' then ['\\', '0']
  else if c = '\t' then ['\\', 't']
  else if c = '\r' then ['\\', 'r']
  else if c = '\n' then ['\\', 'n']
  else if c = '\\' then ['\\', '\\']
  else if c = quote then ['\\', c]
  else if Text.isSeen c then [c]
  else codePoint c

/-- A character in single quotes. -/
def char (c : Char) : String := String.ofList ('\'' :: body '\'' c ++ ['\''])

/-- A text in double quotes. -/
def text (s : String) : String :=
  String.ofList ('"' :: s.toList.flatMap (body '"') ++ ['"'])

end PageText.Quoted
