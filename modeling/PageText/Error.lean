/-
PageText/Error.lean

What can go wrong while the text of a page is read and placed, as causes, and
the one wording of each.
-/
import PageText.Decimal.Notation
import PageText.Text.Latin1
import PageText.Text.Quoted

namespace PageText

/-! ### Tokens -/

/-- Why bytes form no token. -/
inductive TokenFault where
  /-- A `>` that no other `>` follows. -/
  | loneAngle
  /-- A sign or a point without digits. -/
  | noDigits
  /-- A byte between angle brackets that is neither a digit nor a blank. -/
  | badHexDigit (byte : UInt8)
deriving DecidableEq

/-- The fault in words. -/
def TokenFault.message : TokenFault → String
  | .loneAngle => "unbalanced '>'"
  | .noDigits => "invalid number"
  | .badHexDigit byte => "invalid hex digit " ++ Quoted.char (Latin1.char byte)

/-! ### Operands -/

/-- The sorts of operands. -/
inductive OperandSort where
  | number
  | bool
  | name
  | text
  | array
deriving DecidableEq

/-- The name of a sort of operands. -/
def OperandSort.word : OperandSort → String
  | .number => "number"
  | .bool => "bool"
  | .name => "name"
  | .text => "string"
  | .array => "array"

/-- Why operands do not fit their operator.  Positions count from zero. -/
inductive Mismatch where
  /-- The count of operands is not the one expected. -/
  | count (expected got : Nat)
  /-- There are more operands than allowed. -/
  | tooMany (most got : Nat)
  /-- There is no operand at a position. -/
  | missing (position : Nat)
  /-- A number is infinite or NaN. -/
  | notFinite (position : Nat)
  /-- An operand has another sort than expected. -/
  | sort (position : Nat) (expected got : OperandSort)
  /-- A number is no page number. -/
  | pageNumber (position : Nat) (value : Float)
  /-- An item of a text array is neither a finite number nor a string. -/
  | item (got : OperandSort)
deriving DecidableEq

/-- The mismatch in words. -/
def Mismatch.message : Mismatch → String
  | .count expected got => s!"expected {expected} operands, got {got}"
  | .tooMany most got => s!"expected at most {most} operands, got {got}"
  | .missing position => s!"missing operand {position}"
  | .notFinite position => s!"operand {position}: non-finite number"
  | .sort position expected got =>
    s!"operand {position}: expected " ++ expected.word ++ ", got " ++ got.word
  | .pageNumber position value =>
    s!"operand {position}: invalid page number " ++ Decimal.Style.plain.text value
  | .item got => "array item: expected number or string, got " ++ got.word

/-! ### Errors -/

/-- The errors of reading and placing text. -/
inductive Error where
  /-- A state was needed that no open page or text object provides. -/
  | underflow (page : Option UInt32) (index : Nat)
  /-- The operands of an operator do not fit it; `kind` is its spelling. -/
  | malformed (kind : String) (mismatch : Mismatch)
  /-- No font data for a character. -/
  | noMetrics (ch : Char)
  /-- Bytes that form no token, at an offset of the content. -/
  | badToken (offset : Nat) (fault : TokenFault)
  /-- The content ended within a token. -/
  | unexpectedEnd
deriving DecidableEq

/-- A page number as messages show it. -/
def pageWord : Option UInt32 → String
  | none => "None"
  | some page => "Some(" ++ toString page.toNat ++ ")"

namespace Error

/-- The error in words. -/
def message : Error → String
  | underflow page index =>
    "text state underflow on page " ++ pageWord page ++ s!" at operator {index}"
  | malformed kind mismatch => s!"malformed {kind} operator: " ++ mismatch.message
  | noMetrics ch => "no glyph metrics for " ++ Quoted.char ch
  | badToken offset fault => s!"invalid token at position {offset}: " ++ fault.message
  | unexpectedEnd => "unexpected end of input"

/-- The error ends the page. -/
def endsPage : Error → Bool
  | underflow .. => true
  | _ => false

end Error

end PageText
