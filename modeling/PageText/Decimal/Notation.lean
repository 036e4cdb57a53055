/-
PageText/Decimal/Notation.lean

The text of a binary64 number in its shortest digits.  Where the point goes,
when an exponent is written and how a whole number ends are decisions of the
format that asks for the text; they are the fields of `Style`.
-/
import PageText.Decimal.Shortest

namespace PageText.Decimal

open Float.Model (UnpackedFloat)

/-- A format's decisions on writing a number. -/
structure Style where
  /-- The exponents of the leading digit that are written without an exponent. -/
  positional : Int → Bool
  /-- A whole number written positionally ends in `.0`. -/
  pointAfterWhole : Bool
  /-- The digits of a number halfway between two shortest ones. -/
  tie : Tie

/-- Every number without an exponent, whole numbers without a point. -/
def Style.plain : Style := ⟨fun _ => true, false, .up⟩

/-- The digits without the zeros at their end. -/
def withoutTrailingZeros (digits : List Char) : List Char :=
  (digits.reverse.dropWhile (· == '0')).reverse

/-- Digits with the point after the digit of exponent 0, the first digit
having the exponent `lead`. -/
def positionalText (pointAfterWhole : Bool) (digits : List Char) (lead : Int) : List Char :=
  if lead < 0 then
    ['0', '.'] ++ List.replicate (-lead - 1).toNat '0' ++ digits
  else
    let whole := lead.toNat + 1
    if digits.length ≤ whole then
      digits ++ List.replicate (whole - digits.length) '0'
        ++ (if pointAfterWhole then ['.', '0'] else [])
    else
      digits.take whole ++ ['.'] ++ digits.drop whole

/-- Digits with the point after the first one and a signed exponent. -/
def exponentText (digits : List Char) (lead : Int) : List Char :=
  let fraction := digits.drop 1
  digits.take 1 ++ (if fraction.isEmpty then [] else '.' :: fraction)
    ++ ['e', if lead < 0 then '-' else '+'] ++ digitsOf lead.natAbs

/-- The text of `digits * 10^exponent`. -/
def Style.scaledText (style : Style) (number : Scaled) : List Char :=
  let digits := digitsOf number.digits
  let lead := number.exponent + digits.length - 1
  let digits := withoutTrailingZeros digits
  if style.positional lead then positionalText style.pointAfterWhole digits lead
  else exponentText digits lead

/-- The sign as it is written. -/
def signText : UnpackedFloat.Sign → List Char
  | .negative => ['-']
  | .positive => []

/-- The text of a number.  A zero keeps its sign; infinities and NaN have
names. -/
def Style.text (style : Style) (x : Float) : String :=
  String.ofList <| match x.toModel.unpack with
    | .notANumber => ['N', 'a', 'N']
    | .infinity s => signText s ++ ['i', 'n', 'f']
    | .zero s => signText s ++ positionalText style.pointAfterWhole ['0'] 0
    | .finite s m e _ => signText s ++ style.scaledText (shortest style.tie m e)

end PageText.Decimal
