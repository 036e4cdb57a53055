/-
PageText/Content/Numeral.lean

Numbers of a content stream: an optional sign, digits, and optionally a point
with more digits, with at least one digit in all.

The digits before the point are taken up one by one, each time rounding
`10 v + d` once.  The digits after it are collected in a 64-bit word beside
the power of ten they are to be divided by; the eighteenth is the last that
is collected, so the word never overflows.
-/
import PageText.Binary64
import PageText.Content.Byte

namespace PageText

/-- The parts of a number as written. -/
structure Numeral where
  /-- The sign byte, if one is written. -/
  sign : Option UInt8
  /-- The digits before the point. -/
  whole : List UInt8
  /-- The digits after the point, if one is written. -/
  fraction : Option (List UInt8)
deriving DecidableEq

namespace Numeral

/-! ### Spelling -/

/-- The sign at the head of the bytes and the bytes after it. -/
def splitSign : List UInt8 → Option UInt8 × List UInt8
  | [] => (none, [])
  | b :: rest => if b == Byte.minus || b == Byte.plus then (some b, rest) else (none, b :: rest)

/-- The digits after a point, when the bytes start with a point. -/
def fractionOf? : List UInt8 → Option (List UInt8)
  | [] => none
  | b :: rest => if b == Byte.point then some (rest.takeWhile Byte.isDigit) else none

/-- The longest spelling of a number at the head of the bytes. -/
def ofBytes (bytes : List UInt8) : Numeral :=
  let (sign, rest) := splitSign bytes
  ⟨sign, rest.takeWhile Byte.isDigit, fractionOf? (rest.dropWhile Byte.isDigit)⟩

/-- The bytes of a number as written. -/
def bytes (n : Numeral) : List UInt8 :=
  n.sign.toList ++ n.whole ++ (n.fraction.elim [] (Byte.point :: ·))

/-- The digits after the point, none if there is no point. -/
def fractionDigits (n : Numeral) : List UInt8 := n.fraction.getD []

/-- The number has at least one digit. -/
def hasDigits (n : Numeral) : Bool := !n.whole.isEmpty || !n.fractionDigits.isEmpty

/-! ### Value -/

/-- The value of the digits before the point. -/
def wholeValue (digits : List UInt8) : Float :=
  digits.foldl (fun v d => Binary64.mulAdd v 10 (Byte.digitValue d).toFloat) 0

/-- Digits after the point, collected: they stand for `collected / scale`. -/
structure Fraction where
  collected : UInt64
  scale : Float

/-- No digits. -/
def Fraction.empty : Fraction := ⟨0, 1⟩

/-- Collects one more digit as long as the scale is below `10^18`. -/
def Fraction.push (f : Fraction) (digit : UInt8) : Fraction :=
  if f.scale < 1e18 then
    ⟨f.collected * 10 + (Byte.digitValue digit).toUInt64, f.scale * 10⟩
  else f

/-- The digits after the point as a number below one. -/
def Fraction.value (f : Fraction) : Float := f.collected.toFloat / f.scale

/-- The value without the sign. -/
def magnitude (n : Numeral) : Float :=
  match n.fraction with
  | none => wholeValue n.whole
  | some digits => wholeValue n.whole + (digits.foldl Fraction.push Fraction.empty).value

/-- The number that the bytes stand for. -/
def value (n : Numeral) : Float :=
  if n.sign == some Byte.minus then -n.magnitude else n.magnitude

end Numeral

end PageText
