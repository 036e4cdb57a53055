/-
PageText/Command/Arguments.lean

What a command is asked for.
-/

namespace PageText.Command

/-- How the runs are written. -/
inductive OutputType where
  | text
  | json
deriving DecidableEq

/-- The arguments of a command that fit.  A path is what the system takes for
one. -/
structure Arguments (Path : Type) where
  /-- One file with a content stream for each page. -/
  files : List Path
  /-- Asks for more to be logged; the output does not depend on it. -/
  debug : Bool
  outputType : OutputType
  /-- Where the output goes; a lone hyphen is the standard output. -/
  outfile : String
  wordSeparator : Char
  /-- The media box as written. -/
  mediaBox : Option String
deriving DecidableEq

end PageText.Command
