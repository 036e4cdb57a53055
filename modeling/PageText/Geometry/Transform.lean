/-
PageText/Geometry/Transform.lean

Affine maps of the plane as 3 × 3 matrices acting on row vectors:

    [ a  b  u ]
    [ c  d  v ]        (x, y)  ↦  (a x + c y + e,  b x + d y + f)
    [ e  f  w ]

A map built from its six components has the last column `(0, 0, 1)`; a matrix
built cell by cell may have any.  `s.andThen t` applies `s` first, which for
row vectors is the product `s * t`.  Every cell of a product is accumulated
from its last term to its first with `mulAdd`.
-/
import PageText.Geometry.Scalar

namespace PageText

/-- A point of the plane. -/
@[ext]
structure Point (α : Type) where
  x : α
  y : α
deriving DecidableEq

/-- A 3 × 3 matrix with the rows `a b u`, `c d v` and `e f w`. -/
@[ext]
structure Transform (α : Type) where
  a : α
  b : α
  u : α
  c : α
  d : α
  v : α
  e : α
  f : α
  w : α
deriving DecidableEq

namespace Transform

variable {α : Type} [Scalar α]

open Scalar (mulAdd zero one)

/-- The affine map with the components `a b c d e f`. -/
def ofComponents (a b c d e f : α) : Transform α :=
  ⟨a, b, zero, c, d, zero, e, f, one⟩

/-- The map that moves no point. -/
def identity : Transform α := ofComponents one zero zero one zero zero

/-- The map that moves every point by `(dx, dy)`. -/
def shift (dx dy : α) : Transform α := ofComponents one zero zero one dx dy

/-- The map from glyph space to text space: glyphs grow by the font size, and
across also by one plus the horizontal scale in hundredths; `rise` lifts them
off the baseline. -/
def ofGlyph (fontSize horizontalScale rise : α) : Transform α :=
  ofComponents (fontSize * (one + horizontalScale / Scalar.ofNat 100)) zero zero fontSize
    zero rise

/-- The product of the row `x y z` and the column `p q r`. -/
def dot (x y z p q r : α) : α := mulAdd x p (mulAdd y q (z * r))

/-- The map that applies `s` first and `t` after it. -/
def andThen (s t : Transform α) : Transform α where
  a := dot s.a s.b s.u t.a t.c t.e
  b := dot s.a s.b s.u t.b t.d t.f
  u := dot s.a s.b s.u t.u t.v t.w
  c := dot s.c s.d s.v t.a t.c t.e
  d := dot s.c s.d s.v t.b t.d t.f
  v := dot s.c s.d s.v t.u t.v t.w
  e := dot s.e s.f s.w t.a t.c t.e
  f := dot s.e s.f s.w t.b t.d t.f
  w := dot s.e s.f s.w t.u t.v t.w

/-- The image of a point.  The last column takes no part. -/
def apply (t : Transform α) (p : Point α) : Point α where
  x := mulAdd t.a p.x (mulAdd t.c p.y t.e)
  y := mulAdd t.b p.x (mulAdd t.d p.y t.f)

/-- The image of the origin. -/
def origin (t : Transform α) : Point α := ⟨t.e, t.f⟩

/-- The six components `a b c d e f`. -/
def components (t : Transform α) : List α := [t.a, t.b, t.c, t.d, t.e, t.f]

/-- The nine cells, row by row. -/
def cells (t : Transform α) : List α := [t.a, t.b, t.u, t.c, t.d, t.v, t.e, t.f, t.w]

end Transform

/-! ### Comparison within a tolerance -/

/-- The two numbers differ by less than `tolerance`. -/
def isClose (x y tolerance : Float) : Bool := (x - y).abs < tolerance

/-- Every cell of `s` is within `tolerance` of the same cell of `t`. -/
def Transform.isClose (s t : Transform Float) (tolerance : Float) : Bool :=
  (s.cells.zip t.cells).all fun (x, y) => PageText.isClose x y tolerance

end PageText
