/-
PageText/Content/Event.lean

What reading a content stream delivers: operators by their spelling, each with
the operands that stood before it.
-/
import PageText.Error

namespace PageText

/-- An operand.  Strings are already text. -/
inductive Operand where
  | number (value : Float)
  | bool (value : Bool)
  | name (text : String)
  | text (text : String)
  | array (items : List Operand)

/-- The sort of an operand. -/
def Operand.sort : Operand → OperandSort
  | number _ => .number
  | bool _ => .bool
  | name _ => .name
  | text _ => .text
  | array _ => .array

/-- An operator as spelled, with its operands in order. -/
structure Event where
  kind : String
  operands : List Operand

end PageText
