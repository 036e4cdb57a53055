/-
PageText/State/TextState.lean

The state that text is placed in: where the next glyph goes, how it is scaled
and spaced, and which font it is set in.
-/
import PageText.Geometry.Transform

namespace PageText

/-- The parameters of placing text. -/
structure TextState (α : Type) where
  /-- From text space to the page. -/
  matrix : Transform α
  /-- Percentage by which glyphs are stretched across. -/
  horizontalScale : α
  /-- Advance after every character but the word separator. -/
  charSpacing : α
  /-- Advance after the word separator. -/
  wordSpacing : α
  /-- Upward step to the next line. -/
  leading : α
  /-- Height above the baseline. -/
  rise : α
  fontSize : α
  /-- The name of the font, once one is chosen. -/
  font : Option String
  /-- What the enclosing array of text takes off each advance, in thousandths
  of the font size. -/
  adjustment : α
deriving DecidableEq

namespace TextState

variable {α : Type} [Scalar α]

open Scalar (zero)

/-- The state at the start of a page. -/
def initial : TextState α where
  matrix := .identity
  horizontalScale := Scalar.ofNat 100
  charSpacing := zero
  wordSpacing := zero
  leading := zero
  rise := zero
  fontSize := zero
  font := none
  adjustment := zero

/-- The state with its origin moved by `(dx, dy)`, measured in text space. -/
def move (s : TextState α) (dx dy : α) : TextState α :=
  { s with matrix := (Transform.shift dx dy).andThen s.matrix }

/-- The state at the start of the next line. -/
def nextLine (s : TextState α) : TextState α := s.move zero s.leading

end TextState

end PageText
