/-
PageText/Binary64.lean

Binary64 arithmetic beyond the four operations of the core library: the
fused multiply-add, which rounds `x * y + z` once.

A binary64 number unpacks to a sign, a natural mantissa and an exponent of
two.  The product of two finite numbers is again such a triple, only with a
longer mantissa, so it can be formed without rounding (`exactMul`) and handed
to a sum that rounds once (`addRounding`).  Zeros, infinities and NaN follow
the rules of the core product and sum.
-/

namespace PageText.Binary64

open Float.Model (UnpackedFloat Format)

/-- The product of two unpacked numbers, unrounded when both are finite and
not zero. -/
def exactMul : UnpackedFloat → UnpackedFloat → UnpackedFloat
  | .finite s₁ m₁ e₁ h₁, .finite s₂ m₂ e₂ h₂ =>
    .finite (s₁ * s₂) (m₁ * m₂) (e₁ + e₂) (Nat.mul_pos h₁ h₂)
  | x, y => UnpackedFloat.mul Format.binary64 x y

/-- The sum of a number of any mantissa length and a binary64 number, rounded
once.  The core sum hands its first summand back as it is when the second is
a zero, so that case rounds here. -/
def addRounding : UnpackedFloat → UnpackedFloat → UnpackedFloat
  | .finite s m e _, .zero _ => UnpackedFloat.round Format.binary64 s m e
  | x, y => UnpackedFloat.add Format.binary64 x y

/-- `x * y + z`, rounded once. -/
def mulAdd (x y z : Float) : Float :=
  .ofModel (.pack (addRounding (exactMul x.toModel.unpack y.toModel.unpack) z.toModel.unpack))

end PageText.Binary64
