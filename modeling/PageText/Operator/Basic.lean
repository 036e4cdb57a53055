/-
PageText/Operator/Basic.lean

Operators with their arguments, one for each kind.
-/
import PageText.Geometry.Transform
import PageText.Operator.Kind

namespace PageText

/-- An item of an array of text. -/
inductive TextItem where
  /-- An adjustment for the strings after it, in thousandths of the font size. -/
  | adjustment (value : Float)
  | text (text : String)
deriving DecidableEq

/-- An operator that places text. -/
inductive Operator where
  | beginPage (page : Option UInt32)
  | endPage
  | beginText
  | endText
  | setLeading (leading : Float)
  | setRise (rise : Float)
  | setCharSpacing (spacing : Float)
  | setWordSpacing (spacing : Float)
  | setHorizontalScale (percent : Float)
  | moveLine (dx dy : Float)
  | moveLineSetLeading (dx dy : Float)
  | setFont (font : String) (size : Float)
  | setMatrix (matrix : Transform Float)
  | nextLine
  | setSpacingNextLineShow (wordSpacing charSpacing : Float) (text : String)
  | nextLineShow (text : String)
  | showText (text : String)
  | showSpaced (items : List TextItem)
deriving DecidableEq

/-- The kind of an operator. -/
def Operator.kind : Operator → Kind
  | beginPage _ => .beginPage
  | endPage => .endPage
  | beginText => .beginText
  | endText => .endText
  | setLeading _ => .setLeading
  | setRise _ => .setRise
  | setCharSpacing _ => .setCharSpacing
  | setWordSpacing _ => .setWordSpacing
  | setHorizontalScale _ => .setHorizontalScale
  | moveLine .. => .moveLine
  | moveLineSetLeading .. => .moveLineSetLeading
  | setFont .. => .setFont
  | setMatrix _ => .setMatrix
  | nextLine => .nextLine
  | setSpacingNextLineShow .. => .setSpacingNextLineShow
  | nextLineShow _ => .nextLineShow
  | showText _ => .showText
  | showSpaced _ => .showSpaced

end PageText
