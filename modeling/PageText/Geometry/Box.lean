/-
PageText/Geometry/Box.lean

Rectangles given by two opposite corners, in any order, and whether a point
lies inside.  Edges belong to the rectangle.  A coordinate that is NaN
compares with nothing, so no point is inside along that axis.
-/
import PageText.Geometry.Transform

namespace PageText

/-- A rectangle with the corners `(x0, y0)` and `(x1, y1)`. -/
structure Box where
  x0 : Float
  y0 : Float
  x1 : Float
  y1 : Float

namespace Box

/-- The two ends of a side in ascending order. -/
def ascending (p q : Float) : Float × Float := if p ≤ q then (p, q) else (q, p)

/-- `x` lies between `p` and `q`, ends included, whichever is the smaller. -/
def between (p q x : Float) : Bool :=
  let (low, high) := ascending p q
  low ≤ x && x ≤ high

/-- The point lies inside or on the edge of the rectangle. -/
def contains (box : Box) (point : Point Float) : Bool :=
  between box.x0 box.x1 point.x && between box.y0 box.y1 point.y

end Box

end PageText
