/-
PageText/Geometry/Scalar.lean

The arithmetic that positions are computed in.  Geometry and glyph placement
are written once over `Scalar`, so the same definitions compute in binary64
and can be read in an exact field, where the laws of affine maps hold without
rounding.
-/
import PageText.Binary64

namespace PageText

/-- Numbers with the operations that placing glyphs needs.  `mulAdd x y z` is
`x * y + z` with at most one rounding. -/
class Scalar (α : Type) extends Add α, Sub α, Mul α, Div α where
  ofNat : Nat → α
  mulAdd : α → α → α → α

namespace Scalar

variable {α : Type} [Scalar α]

/-- The number zero. -/
abbrev zero : α := ofNat 0

/-- The number one. -/
abbrev one : α := ofNat 1

end Scalar

/-- Binary64 numbers, with a fused multiply-add. -/
instance : Scalar Float where
  ofNat n := Float.ofNat n
  mulAdd := Binary64.mulAdd

end PageText
