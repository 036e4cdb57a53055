/-
PageText/Text/Json.lean

JSON values as text, on one line or indented.

Numbers are written in their shortest digits: positionally, with at least one
digit after the point, while the leading digit stands between `10^-5` and
`10^15`, and with an exponent otherwise.  What is no finite number is `null`.
In strings the quote, the backslash and control characters are escaped.
-/
import PageText.Decimal.Notation

namespace PageText

/-- A JSON value.  The fields of an object keep their order. -/
inductive Json where
  | null
  | count (n : Nat)
  | number (x : Float)
  | string (s : String)
  | array (items : List Json)
  | object (fields : List (String × Json))

namespace Json

/-! ### Numbers and strings -/

/-- How numbers are written. -/
def numberStyle : Decimal.Style := ⟨fun lead => -5 ≤ lead && lead ≤ 15, true, .toEven⟩

/-- The text of a number. -/
def numberText (x : Float) : String := if x.isFinite then numberStyle.text x else "null"

/-- A character within a string. -/
def escape (c : Char) : List Char :=
  if c = '"' then ['\\', '"']
  else if c = '\\' then ['\\', '\\']
  else if c = '\x08' then ['\\', 'b']
  else if c = '\t' then ['\\', 't']
  else if c = '\n' then ['\\', 'n']
  else if c = '\x0c' then ['\\', 'f']
  else if c = '\r' then ['\\', 'r']
  else if c.toNat < 0x20 then
    ['\\', 'u', '0', '0'] ++ List.replicate (if c.toNat < 0x10 then 1 else 0) '0'
      ++ Nat.toDigits 16 c.toNat
  else [c]

/-- The text of a string, in quotes. -/
def stringText (s : String) : String := String.ofList ('"' :: s.toList.flatMap escape ++ ['"'])

/-! ### Layout -/

/-- Texts between an opening and a closing bracket, with commas. -/
def enclose (opening closing : String) (items : List String) : String :=
  opening ++ String.intercalate "," items ++ closing

mutual

/-- The text of a value without blanks. -/
def compact : Json → String
  | null => "null"
  | count n => toString n
  | number x => numberText x
  | string s => stringText s
  | array items => enclose "[" "]" (compactItems items)
  | object fields => enclose "\x7b" "\x7d" (compactFields fields)

/-- The texts of values without blanks. -/
def compactItems : List Json → List String
  | [] => []
  | item :: rest => compact item :: compactItems rest

/-- The texts of fields without blanks. -/
def compactFields : List (String × Json) → List String
  | [] => []
  | (name, value) :: rest => (stringText name ++ ":" ++ compact value) :: compactFields rest

end

/-- The start of a line at a depth of brackets. -/
def lineStart (depth : Nat) : String := "\n" ++ String.ofList (List.replicate (2 * depth) ' ')

/-- Texts between brackets, each on a line of its own one step deeper.  Without
any text the brackets stand together. -/
def encloseLines (depth : Nat) (opening closing : String) (items : List String) : String :=
  if items.isEmpty then opening ++ closing
  else
    opening ++ lineStart (depth + 1) ++ String.intercalate ("," ++ lineStart (depth + 1)) items
      ++ lineStart depth ++ closing

mutual

/-- The text of a value that starts at a depth of brackets, indented by two
blanks a step. -/
def indented (depth : Nat) : Json → String
  | null => "null"
  | count n => toString n
  | number x => numberText x
  | string s => stringText s
  | array items => encloseLines depth "[" "]" (indentedItems (depth + 1) items)
  | object fields => encloseLines depth "\x7b" "\x7d" (indentedFields (depth + 1) fields)

/-- The indented texts of values. -/
def indentedItems (depth : Nat) : List Json → List String
  | [] => []
  | item :: rest => indented depth item :: indentedItems depth rest

/-- The indented texts of fields. -/
def indentedFields (depth : Nat) : List (String × Json) → List String
  | [] => []
  | (name, value) :: rest =>
    (stringText name ++ ": " ++ indented depth value) :: indentedFields depth rest

end

/-- The text of a value over several lines. -/
def pretty (value : Json) : String := indented 0 value

end Json

end PageText
