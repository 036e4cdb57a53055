/-
PageText/Notice.lean

What the library reports while it works: tokens and operators that were left
out, pages that ended early or with text objects open, and glyph metrics that
were replaced by zero.  Notices say nothing that results do not depend on
otherwise; they are how a reader learns why text is missing.
-/
import PageText.Error
import PageText.Operator.Kind

namespace PageText

/-- How much a notice matters. -/
inductive Level where
  | trace
  | debug
  | warn
deriving DecidableEq

/-- The name of a level. -/
def Level.word : Level → String
  | .trace => "TRACE"
  | .debug => "DEBUG"
  | .warn => "WARN"

/-- A report. -/
inductive Notice where
  /-- Bytes that form no token were left out. -/
  | badToken (error : Error)
  /-- A bracket closed no array. -/
  | strayBracket (offset : Nat)
  /-- Angle brackets closed no dictionary. -/
  | strayDictEnd (offset : Nat)
  /-- A keyword within an array was left out. -/
  | keywordInArray (keyword : String)
  /-- An operator of no known kind was passed over. -/
  | unknownOperator (kind : String)
  /-- An operator whose operands do not fit was passed over. -/
  | malformedOperator (page : Option UInt32) (index : Nat) (error : Error)
  /-- An operator found no state to work on, and the page ended there. -/
  | pageAborted (error : Error) (kind : Kind)
  /-- An operator failed in another way. -/
  | operatorFailed (page : Option UInt32) (index : Nat) (error : Error)
  /-- A page began while text objects of the one before were open. -/
  | begunOverOpenText (previous : Option UInt32) (unclosed : Nat)
  /-- A page ended with text objects open. -/
  | endedWithOpenText (page : Option UInt32) (unclosed : Nat)
  /-- There are no metrics for a character. -/
  | metricsMissing (ch : Char)
  /-- A lookup of metrics failed in another way. -/
  | metricsFailed (error : Error)
deriving DecidableEq

namespace Notice

/-- How much the notice matters. -/
def level : Notice → Level
  | badToken _ | strayBracket _ | strayDictEnd _ | keywordInArray _ | unknownOperator _ => .trace
  | malformedOperator .. | pageAborted .. | operatorFailed .. => .warn
  | begunOverOpenText .. | endedWithOpenText .. | metricsMissing _ | metricsFailed _ => .debug

/-- The notice in words, without its particulars. -/
def message : Notice → String
  | badToken _ => "skipping bad token"
  | strayBracket _ => "unbalanced ']'"
  | strayDictEnd _ => "unbalanced '>>'"
  | keywordInArray _ => "keyword inside array"
  | unknownOperator _ => "ignoring operator"
  | malformedOperator .. => "skipping malformed operator"
  | pageAborted .. => "aborting page"
  | operatorFailed .. => "operator failed"
  | begunOverOpenText .. => "begin_page with open text objects"
  | endedWithOpenText .. => "end_page with open text objects"
  | metricsMissing _ => "glyph metrics unavailable, using zero"
  | metricsFailed _ => "glyph metrics lookup failed, using zero"

/-- The particulars of the notice, by name. -/
def fields : Notice → List (String × String)
  | badToken error => [("err", error.message)]
  | strayBracket offset => [("pos", toString offset)]
  | strayDictEnd offset => [("pos", toString offset)]
  | keywordInArray keyword => [("keyword", keyword)]
  | unknownOperator kind => [("kind", kind)]
  | malformedOperator page index error =>
    [("page", pageWord page), ("operator_index", toString index), ("err", error.message)]
  | pageAborted error kind => [("err", error.message), ("kind", kind.title)]
  | operatorFailed page index error =>
    [("page", pageWord page), ("operator_index", toString index), ("err", error.message)]
  | begunOverOpenText previous unclosed =>
    [("previous", pageWord previous), ("unclosed", toString unclosed)]
  | endedWithOpenText page unclosed =>
    [("page", pageWord page), ("unclosed", toString unclosed)]
  | metricsMissing ch => [("ch", Quoted.char ch)]
  | metricsFailed error => [("err", error.message)]

end Notice

end PageText
