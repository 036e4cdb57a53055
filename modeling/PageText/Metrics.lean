/-
PageText/Metrics.lean

Glyph metrics: how wide and high a character is in a text state, and how far
it moves the origin of the next one.  A lookup may fail.

Besides metrics that are zero everywhere there are tables of widths by font,
in thousandths of the font size.
-/
import PageText.Error
import PageText.State.TextState

namespace PageText

/-- Lookups of glyph metrics.  Width and height are in text space; the
displacement is still to be multiplied by the font size. -/
structure Metrics (α : Type) where
  width : Char → TextState α → Except Error α
  height : Char → TextState α → Except Error α
  displacement : Char → TextState α → Except Error (Point α)

/-- Every glyph is a point. -/
def Metrics.zero {α : Type} [Scalar α] : Metrics α where
  width _ _ := .ok Scalar.zero
  height _ _ := .ok Scalar.zero
  displacement _ _ := .ok ⟨Scalar.zero, Scalar.zero⟩

/-! ### Width tables -/

/-- The widths of a font's characters, in thousandths of the font size. -/
structure FontWidths where
  /-- Widths by character; a later entry counts before an earlier one. -/
  widths : List (Char × Float)
  /-- The width of characters that are not listed, if they have one. -/
  defaultWidth : Option Float := none
  /-- The top of the font above the baseline. -/
  ascent : Float := 1000
  /-- The bottom of the font, as a rule negative. -/
  descent : Float := 0

namespace FontWidths

/-- A font whose characters are all equally wide. -/
def monospace (width : Float) : FontWidths where
  widths := []
  defaultWidth := some width

/-- The width of a character: the last one listed for it, else the default. -/
def width? (font : FontWidths) (ch : Char) : Option Float :=
  ((font.widths.reverse.find? (·.1 == ch)).map (·.2)).or font.defaultWidth

end FontWidths

/-- Fonts by name; a font put in later counts before an earlier one of the same
name. -/
structure WidthTable where
  /-- The fonts, the latest first. -/
  fonts : List (String × FontWidths) := []

namespace WidthTable

/-- Puts a font into the table. -/
def insert (table : WidthTable) (name : String) (font : FontWidths) : WidthTable :=
  ⟨(name, font) :: table.fonts⟩

/-- The font of a name. -/
def font? (table : WidthTable) (name : String) : Option FontWidths :=
  (table.fonts.find? (·.1 == name)).map (·.2)

/-- The font that a state is set in, on behalf of a character. -/
def fontFor (table : WidthTable) (ch : Char) (s : TextState Float) : Except Error FontWidths :=
  match s.font.bind table.font? with
  | some font => .ok font
  | none => .error (.noMetrics ch)

/-- The listed width of a character in the font that a state is set in. -/
def widthFor (table : WidthTable) (ch : Char) (s : TextState Float) : Except Error Float := do
  let font ← table.fontFor ch s
  match font.width? ch with
  | some width => .ok width
  | none => .error (.noMetrics ch)

/-- The metrics that a table of widths gives. -/
def metrics (table : WidthTable) : Metrics Float where
  width ch s := do
    let width ← table.widthFor ch s
    return width * 0.001 * s.fontSize
  height ch s := do
    let font ← table.fontFor ch s
    return (font.ascent - font.descent) * 0.001 * s.fontSize
  displacement ch s := do
    let width ← table.widthFor ch s
    return ⟨width * 0.001, 0⟩

end WidthTable

end PageText
