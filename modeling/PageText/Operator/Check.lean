/-
PageText/Operator/Check.lean

Events checked against the operands that their kind takes.

`Operator.ofEvent?` gives the operator that an event stands for, nothing when
its kind is not known, or the first mismatch: the count of operands is looked
at before any operand, and operands from the first to the last.  Numbers must
be finite.  A page may begin with a number or without one.
-/
import PageText.Content.Event
import PageText.Operator.Basic

namespace PageText

/-! ### Single operands -/

namespace Operands

/-- There are exactly `n` operands. -/
def expectCount (operands : List Operand) (n : Nat) : Except Mismatch Unit :=
  if operands.length = n then .ok () else .error (.count n operands.length)

/-- The operand at a position. -/
def operandAt (operands : List Operand) (i : Nat) : Except Mismatch Operand :=
  match operands[i]? with
  | some operand => .ok operand
  | none => .error (.missing i)

/-- The finite number at a position. -/
def numberAt (operands : List Operand) (i : Nat) : Except Mismatch Float := do
  match ← operandAt operands i with
  | .number x => if x.isFinite then .ok x else .error (.notFinite i)
  | other => .error (.sort i .number other.sort)

/-- The number is a whole one that fits into 32 bits. -/
def isPageNumber (x : Float) : Bool := 0 ≤ x && x ≤ 4294967295 && x.toUInt32.toFloat == x

/-- The page number at a position. -/
def pageNumberAt (operands : List Operand) (i : Nat) : Except Mismatch UInt32 := do
  let x ← numberAt operands i
  if isPageNumber x then .ok x.toUInt32 else .error (.pageNumber i x)

/-- The name at a position. -/
def nameAt (operands : List Operand) (i : Nat) : Except Mismatch String := do
  match ← operandAt operands i with
  | .name text => .ok text
  | other => .error (.sort i .name other.sort)

/-- The text at a position. -/
def textAt (operands : List Operand) (i : Nat) : Except Mismatch String := do
  match ← operandAt operands i with
  | .text text => .ok text
  | other => .error (.sort i .text other.sort)

/-- An operand as an item of an array of text. -/
def textItem : Operand → Except Mismatch TextItem
  | .number x => if x.isFinite then .ok (.adjustment x) else .error (.item .number)
  | .text text => .ok (.text text)
  | other => .error (.item other.sort)

/-- The array of text at a position. -/
def textItemsAt (operands : List Operand) (i : Nat) : Except Mismatch (List TextItem) := do
  match ← operandAt operands i with
  | .array items => items.mapM textItem
  | other => .error (.sort i .array other.sort)

/-! ### Shapes of operand lists -/

/-- No operand. -/
def nothing (operands : List Operand) (op : Operator) : Except Mismatch Operator := do
  expectCount operands 0
  return op

/-- One number. -/
def oneNumber (operands : List Operand) (op : Float → Operator) : Except Mismatch Operator := do
  expectCount operands 1
  return op (← numberAt operands 0)

/-- Two numbers. -/
def twoNumbers (operands : List Operand) (op : Float → Float → Operator) :
    Except Mismatch Operator := do
  expectCount operands 2
  return op (← numberAt operands 0) (← numberAt operands 1)

/-- One text. -/
def oneText (operands : List Operand) (op : String → Operator) : Except Mismatch Operator := do
  expectCount operands 1
  return op (← textAt operands 0)

end Operands

/-! ### Operators -/

namespace Operator

open Operands

/-- The operator of a kind with the given operands. -/
def ofOperands (kind : Kind) (operands : List Operand) : Except Mismatch Operator :=
  match kind with
  | .beginPage => do
    if 1 < operands.length then .error (.tooMany 1 operands.length)
    else if operands.isEmpty then return .beginPage none
    else return .beginPage (some (← pageNumberAt operands 0))
  | .endPage => nothing operands .endPage
  | .beginText => nothing operands .beginText
  | .endText => nothing operands .endText
  | .setLeading => oneNumber operands .setLeading
  | .setRise => oneNumber operands .setRise
  | .setCharSpacing => oneNumber operands .setCharSpacing
  | .setWordSpacing => oneNumber operands .setWordSpacing
  | .setHorizontalScale => oneNumber operands .setHorizontalScale
  | .moveLine => twoNumbers operands .moveLine
  | .moveLineSetLeading => twoNumbers operands .moveLineSetLeading
  | .setFont => do
    expectCount operands 2
    return .setFont (← nameAt operands 0) (← numberAt operands 1)
  | .setMatrix => do
    expectCount operands 6
    return .setMatrix (.ofComponents (← numberAt operands 0) (← numberAt operands 1)
      (← numberAt operands 2) (← numberAt operands 3) (← numberAt operands 4)
      (← numberAt operands 5))
  | .nextLine => nothing operands .nextLine
  | .setSpacingNextLineShow => do
    expectCount operands 3
    return .setSpacingNextLineShow (← numberAt operands 0) (← numberAt operands 1)
      (← textAt operands 2)
  | .nextLineShow => oneText operands .nextLineShow
  | .showText => oneText operands .showText
  | .showSpaced => do
    expectCount operands 1
    return .showSpaced (← textItemsAt operands 0)

/-- The operator that an event stands for. -/
def ofEvent? (event : Event) : Except Error (Option Operator) :=
  match Kind.ofName? event.kind with
  | none => .ok none
  | some kind =>
    match ofOperands kind event.operands with
    | .ok op => .ok (some op)
    | .error mismatch => .error (.malformed event.kind mismatch)

end Operator

end PageText
