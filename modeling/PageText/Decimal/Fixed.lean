/-
PageText/Decimal/Fixed.lean

Numbers with a fixed count of decimal places.  The exact value is rounded
once; a value halfway between two texts takes the one with an even last digit.
-/
import PageText.Decimal.Notation

namespace PageText.Decimal

/-- The quotient `num / den` rounded to a natural number, halves to even. -/
def roundDiv (num den : Nat) : Nat :=
  let whole := num / den
  let twice := 2 * (num % den)
  if twice < den then whole
  else if den < twice then whole + 1
  else whole + whole % 2

/-- Digits of `n`, filled up with zeros on the left to `width`. -/
def paddedDigits (width n : Nat) : List Char :=
  let digits := digitsOf n
  List.replicate (width - digits.length) '0' ++ digits

/-- The text of `m * 2^e` with `places` digits after the point. -/
def fixedMagnitude (places m : Nat) (e : Int) : List Char :=
  let one := Nat.pow 10 places
  let units := roundDiv (m * Nat.pow 2 e.toNat * one) (Nat.pow 2 (-e).toNat)
  digitsOf (units / one) ++ ['.'] ++ paddedDigits places (units % one)

/-- The text of a number with `places` digits after the point.  A number that
rounds to zero keeps its sign. -/
def fixedText (places : Nat) (x : Float) : String :=
  String.ofList <| match x.toModel.unpack with
    | .notANumber => ['N', 'a', 'N']
    | .infinity s => signText s ++ ['i', 'n', 'f']
    | .zero s => signText s ++ fixedMagnitude places 0 0
    | .finite s m e _ => signText s ++ fixedMagnitude places m e

end PageText.Decimal
