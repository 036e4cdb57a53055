/-
PageText/State/Stack.lean

The stack of text states.  The bottom state belongs to the page and stands
there from its beginning to its end; each text object, each array of text and
each string shown puts a copy of the top on it for its own time.

Actions on the stack may fail for want of a state.  An action that fails hands
back the stack that it left, so what a failed operator changed is a question
to be answered, not a matter of convention.
-/
import PageText.Error
import PageText.State.TextState

namespace PageText

/-- Text states, the top one first. -/
abbrev Stack (α : Type) := List (TextState α)

namespace Stack

variable {α : Type} [Scalar α]

/-- An action on the stack. -/
abbrev Action (α β : Type) := EStateM Error (Stack α) β

/-- The error of an action that finds no state, before it is known where on
the page it ran. -/
def underflow : Error := .underflow none 0

/-- A stack with the initial state alone. -/
def page : Stack α := [TextState.initial]

/-- How many states are open above the bottom one. -/
def unclosed (stack : Stack α) : Nat := stack.length - 1

/-- The top state. -/
def top : Action α (TextState α) := fun stack =>
  match stack with
  | [] => .error underflow []
  | s :: below => .ok s (s :: below)

/-- Changes the top state. -/
def modifyTop (change : TextState α → TextState α) : Action α Unit := fun stack =>
  match stack with
  | [] => .error underflow []
  | s :: below => .ok () (change s :: below)

/-- Puts a copy of the top state on the stack. -/
def pushCopy : Action α Unit := fun stack =>
  match stack with
  | [] => .error underflow []
  | s :: below => .ok () (s :: s :: below)

/-- Takes the top state off the stack, but never the bottom one. -/
def pop : Action α Unit := fun stack =>
  match stack with
  | _ :: s :: below => .ok () (s :: below)
  | short => .error underflow short

/-- Begins a page: only the initial state is left. -/
def beginPage : Action α Unit := fun _ => .ok () page

/-- Empties the stack and tells how many states were open above the bottom
one. -/
def endPage : Action α Nat := fun stack => .ok (unclosed stack) []

end Stack

end PageText
