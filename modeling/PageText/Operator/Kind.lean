/-
PageText/Operator/Kind.lean

The kinds of operators that place text.  Each has a description, and those
that occur in content streams have a mnemonic; an event may use either.
-/

namespace PageText

/-- A kind of operator. -/
inductive Kind where
  | beginPage
  | endPage
  | beginText
  | endText
  | setLeading
  | setRise
  | setCharSpacing
  | setWordSpacing
  | setHorizontalScale
  | moveLine
  | moveLineSetLeading
  | setFont
  | setMatrix
  | nextLine
  | setSpacingNextLineShow
  | nextLineShow
  | showText
  | showSpaced
deriving DecidableEq

namespace Kind

/-- Every kind once. -/
def all : List Kind := [
  beginPage, endPage, beginText, endText, setLeading, setRise, setCharSpacing, setWordSpacing,
  setHorizontalScale, moveLine, moveLineSetLeading, setFont, setMatrix, nextLine,
  setSpacingNextLineShow, nextLineShow, showText, showSpaced]

/-- The descriptive name. -/
def description : Kind → String
  | beginPage => "begin_page"
  | endPage => "end_page"
  | beginText => "begin_text_object"
  | endText => "end_text_object"
  | setLeading => "set_text_leading"
  | setRise => "set_text_rise"
  | setCharSpacing => "set_character_spacing"
  | setWordSpacing => "set_word_spacing"
  | setHorizontalScale => "set_horizontal_text_scaling"
  | moveLine => "move_text_position"
  | moveLineSetLeading => "move_text_position_and_set_leading"
  | setFont => "set_text_font_and_size"
  | setMatrix => "set_text_matrix_and_text_line_matrix"
  | nextLine => "move_to_start_of_next_line"
  | setSpacingNextLineShow => "set_spacing_next_line_show_text"
  | nextLineShow => "move_to_next_line_and_show_text"
  | showText => "show_text"
  | showSpaced => "show_text_with_positioning"

/-- The operator of content streams.  Pages begin and end outside of them. -/
def mnemonic? : Kind → Option String
  | beginPage => none
  | endPage => none
  | beginText => some "BT"
  | endText => some "ET"
  | setLeading => some "TL"
  | setRise => some "Ts"
  | setCharSpacing => some "Tc"
  | setWordSpacing => some "Tw"
  | setHorizontalScale => some "Tz"
  | moveLine => some "Td"
  | moveLineSetLeading => some "TD"
  | setFont => some "Tf"
  | setMatrix => some "Tm"
  | nextLine => some "T*"
  | setSpacingNextLineShow => some "\""
  | nextLineShow => some "'"
  | showText => some "Tj"
  | showSpaced => some "TJ"

/-- The name is one of the two spellings of the kind. -/
def isSpelled (kind : Kind) (name : String) : Bool :=
  kind.description == name || kind.mnemonic? == some name

/-- The kind that a name spells. -/
def ofName? (name : String) : Option Kind := all.find? (·.isSpelled name)

/-- The words of a name joined, each with a capital: an underscore ends a word
and is dropped, and `wordStarts` says that the next letter begins one. -/
def joinWords : (wordStarts : Bool) → List Char → List Char
  | _, [] => []
  | wordStarts, c :: rest =>
    if c = '_' then joinWords true rest
    else if wordStarts then c.toUpper :: joinWords false rest
    else c :: joinWords false rest

/-- The descriptive name with every word capitalised and no underscores. -/
def title (kind : Kind) : String :=
  String.ofList (joinWords true kind.description.toList)

end Kind

end PageText
