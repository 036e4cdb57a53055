/-
PageText/Decimal/Numeral.lean

Reading a decimal numeral as the nearest binary64 number: an optional sign,
then digits with at most one point and at least one digit, then an optional
exponent; or, in letters of any case, `inf`, `infinity` or `nan`.
-/

namespace PageText.Decimal

/-- Why a text is no number. -/
inductive NumeralError where
  | empty
  | invalid
deriving DecidableEq

/-- The error in words. -/
def NumeralError.message : NumeralError → String
  | .empty => "cannot parse float from empty string"
  | .invalid => "invalid float literal"

/-- The number that decimal digits denote, read after the number `n`. -/
def natOfDigits (n : Nat) (digits : List Char) : Nat :=
  digits.foldl (fun n c => 10 * n + (c.toNat - '0'.toNat)) n

/-- A sign in front of a numeral and what follows it. -/
def splitSign : List Char → Bool × List Char
  | '-' :: rest => (true, rest)
  | '+' :: rest => (false, rest)
  | rest => (false, rest)

/-- The exponent part of a numeral: nothing, or `e`, an optional sign and at
least one digit. -/
def exponentOf? : List Char → Option Int
  | [] => some 0
  | c :: rest =>
    let (negative, digits) := splitSign rest
    if (c == 'e' || c == 'E') && !digits.isEmpty && digits.all Char.isDigit then
      let n := natOfDigits 0 digits
      some (if negative then -(n : Int) else n)
    else none

/-- The digits after a point, if there is a point, and the rest. -/
def splitFraction : List Char → List Char × List Char
  | '.' :: rest => rest.span Char.isDigit
  | rest => ([], rest)

/-- The magnitude of an unsigned numeral in digits. -/
def magnitudeOf? (text : List Char) : Option Float :=
  let (whole, rest) := text.span Char.isDigit
  let (fraction, rest) := splitFraction rest
  if whole.isEmpty && fraction.isEmpty then none
  else (exponentOf? rest).map fun e =>
    .ofModel (.ofScientific (natOfDigits (natOfDigits 0 whole) fraction) (e - fraction.length))

/-- The magnitude of an unsigned numeral in letters. -/
def namedMagnitude? (text : List Char) : Option Float :=
  let lower := text.map Char.toLower
  if lower = ['i', 'n', 'f'] || lower = ['i', 'n', 'f', 'i', 'n', 'i', 't', 'y'] then
    some (1 / 0)
  else if lower = ['n', 'a', 'n'] then some (0 / 0)
  else none

/-- The number that a text denotes. -/
def numeral? (text : List Char) : Except NumeralError Float :=
  if text.isEmpty then .error .empty
  else
    let (negative, rest) := splitSign text
    match (magnitudeOf? rest).or (namedMagnitude? rest) with
    | some x => .ok (if negative then -x else x)
    | none => .error .invalid

end PageText.Decimal
