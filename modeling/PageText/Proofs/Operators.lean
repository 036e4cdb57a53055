/-
PageText/Proofs/Operators.lean

What an operator does, said once.  An operator is carried out by actions in a
row, each of which may fail for want of a state; taken together they come to
three functions of what the operator finds:

* `Operator.stackAfter?` — the stack it leaves, nothing if it fails;
* `Operator.change` — the top state it leaves;
* `Setting.showing` — what it shows, from the changed top state.

Main results: `perform_eq` and `dispatch_eq`.  An operator fails exactly where
`stackAfter?` gives nothing, always with the same error, and an operator that
fails leaves the whole interpreter as it was.
-/
import PageText.Interpreter
import PageText.Proofs.Typesetting

namespace PageText

/-! ### The effect of an operator -/

namespace Operator

/-- The top state after an operator that works on the top state. -/
def change : Operator → TextState Float → TextState Float
  | setLeading leading, s => { s with leading := leading }
  | setRise rise, s => { s with rise := rise }
  | setCharSpacing spacing, s => { s with charSpacing := spacing }
  | setWordSpacing spacing, s => { s with wordSpacing := spacing }
  | setHorizontalScale percent, s => { s with horizontalScale := percent }
  | moveLine dx dy, s => s.move dx dy
  | moveLineSetLeading dx dy, s => { s.move dx dy with leading := dy }
  | setFont font size, s => { s with font := some font, fontSize := size }
  | setMatrix matrix, s => { s with matrix := matrix }
  | nextLine, s => s.nextLine
  | setSpacingNextLineShow wordSpacing charSpacing _, s =>
    { s with wordSpacing := wordSpacing, charSpacing := charSpacing }.nextLine
  | nextLineShow _, s => s.nextLine
  | _, s => s

/-- The stack after an operator; nothing when it lacks a state to work on. -/
def stackAfter? (op : Operator) : Stack Float → Option (Stack Float)
  | [] =>
    match op with
    | beginPage _ => some Stack.page
    | _ => none
  | s :: below =>
    match op with
    | endPage => some []
    | beginText => some (s :: s :: below)
    | endText => if below.isEmpty then none else some below
    | beginPage _ => some Stack.page
    | _ => some (op.change s :: below)

theorem stackAfter?_beginPage (page : Option UInt32) (stack : Stack Float) :
    (beginPage page).stackAfter? stack = some Stack.page := by
  cases stack <;> rfl

/-- What the beginning of a page drops; other operators drop nothing. -/
def reset : Operator → Interpreter → Interpreter
  | beginPage page, i => { i with page := page, runs := #[], diagnostics := #[] }
  | _, i => i

end Operator

/-- What the items of an array emit when they are shown from a state.  A number
replaces the adjustment for the strings after it. -/
def Setting.shownItems (setting : Setting) (s : TextState Float) : List TextItem → Emission Float
  | [] => .empty
  | .adjustment value :: rest => setting.shownItems { s with adjustment := value } rest
  | .text text :: rest =>
    (setting.typesetter.shown s text.toList).append (setting.shownItems s rest)

/-- What an operator shows on a stack. -/
def Setting.showing (setting : Setting) (op : Operator) : Stack Float → Emission Float
  | [] => .empty
  | s :: _ =>
    match op with
    | .setSpacingNextLineShow _ _ text | .nextLineShow text | .showText text =>
      setting.typesetter.shown (op.change s) text.toList
    | .showSpaced items => setting.shownItems s items
    | _ => .empty

/-- What an operator emits: what it shows, and the notice of a page about text
objects that are still open. -/
def Setting.emission (setting : Setting) (op : Operator) (i : Interpreter) : Emission Float :=
  let unclosed := Stack.unclosed i.stack
  match op with
  | .endPage => if 0 < unclosed then .notice (.endedWithOpenText i.page unclosed) else .empty
  | .beginPage _ => if 0 < unclosed then .notice (.begunOverOpenText i.page unclosed) else .empty
  | _ => setting.showing op i.stack

theorem Setting.emission_runs (setting : Setting) (op : Operator) (i : Interpreter) :
    (setting.emission op i).runs = (setting.showing op i.stack).runs := by
  cases op with
  | beginPage page =>
    rcases hi : i.stack with - | ⟨s, below⟩ <;> simp only [emission, showing] <;> split <;> rfl
  | endPage =>
    rcases hi : i.stack with - | ⟨s, below⟩ <;> simp only [emission, showing] <;> split <;> rfl
  | _ => rfl

/-- The runs of an operator that are kept. -/
def Setting.kept (setting : Setting) (op : Operator) (stack : Stack Float) : Array (Run Float) :=
  (setting.showing op stack).runs.filter setting.options.keeps

/-- The interpreter after an operator that leaves `stack`. -/
def Setting.after (setting : Setting) (op : Operator) (stack : Stack Float) (i : Interpreter) :
    Interpreter :=
  { op.reset i with stack := stack, runs := (op.reset i).runs ++ setting.kept op i.stack }

namespace Interpreter

/-! ### Strings and arrays of text -/

theorem showText_cons (setting : Setting) (text : String) (i : Interpreter) (s : TextState Float)
    (below : Stack Float) :
    showText setting text { i with stack := s :: below }
      = .ok (setting.typesetter.shown s text.toList) { i with stack := s :: below } := by
  simp only [showText, onStack, Typesetter.showText_cons]

/-- The adjustment that an array leaves behind in its own state. -/
def adjusted (s : TextState Float) : List TextItem → TextState Float
  | [] => s
  | .adjustment value :: rest => adjusted { s with adjustment := value } rest
  | .text _ :: rest => adjusted s rest

theorem showItems_cons (setting : Setting) (i : Interpreter) (below : Stack Float)
    (items : List TextItem) :
    ∀ (before : Emission Float) (s : TextState Float),
      showItems setting before items { i with stack := s :: below }
        = .ok (before.append (setting.shownItems s items))
          { i with stack := adjusted s items :: below } := by
  induction items with
  | nil =>
    intro before s
    rw [Setting.shownItems, Emission.append_empty]
    rfl
  | cons item rest ih =>
    intro before s
    cases item with
    | adjustment value =>
      exact ih before { s with adjustment := value }
    | text text =>
      rw [showItems, bind_of_ok (showText_cons setting text i s below), ih, Setting.shownItems,
        adjusted, Emission.append_assoc]

/-- **Showing an array of text** leaves the stack as it was. -/
theorem showSpaced_cons (setting : Setting) (i : Interpreter) (s : TextState Float)
    (below : Stack Float) (items : List TextItem) :
    showSpaced setting items { i with stack := s :: below }
      = .ok (setting.shownItems s items) { i with stack := s :: below } := by
  have hcopy : onStack Stack.pushCopy { i with stack := s :: below }
      = .ok () { i with stack := s :: s :: below } := rfl
  rw [showSpaced, bind_of_ok hcopy, bind_of_ok (showItems_cons setting i _ items _ _),
    Emission.empty_append]
  rfl

theorem nextLineShow_cons (setting : Setting) (text : String) (i : Interpreter)
    (s : TextState Float) (below : Stack Float) :
    nextLineShow setting text { i with stack := s :: below }
      = .ok (setting.typesetter.shown s.nextLine text.toList)
        { i with stack := s.nextLine :: below } := by
  have hline : nextLine { i with stack := s :: below }
      = .ok () { i with stack := s.nextLine :: below } := rfl
  rw [nextLineShow, bind_of_ok hline, showText_cons]

/-! ### Carrying out an operator -/

theorem endPage_cons (setting : Setting) (i : Interpreter) (s : TextState Float)
    (below : Stack Float) :
    endPage { i with stack := s :: below }
      = .ok (setting.emission .endPage { i with stack := s :: below }) { i with stack := [] } := by
  have htop : onStack Stack.top { i with stack := s :: below }
      = .ok s { i with stack := s :: below } := rfl
  have hend : onStack Stack.endPage { i with stack := s :: below }
      = .ok (Stack.unclosed (s :: below)) { i with stack := [] } := rfl
  rw [endPage, bind_of_ok htop, bind_of_ok hend, Setting.emission]
  by_cases h : 0 < Stack.unclosed (s :: below)
  · rw [if_pos h]
    exact bind_of_ok rfl |>.trans (by rw [if_pos h]; rfl)
  · rw [if_neg h]
    exact bind_of_ok rfl |>.trans (by rw [if_neg h]; rfl)

/-- **What an operator does.**  It fails exactly where it leaves no stack, and
then nothing has changed. -/
theorem perform_eq (setting : Setting) (op : Operator) (i : Interpreter) :
    perform setting op i = match op.stackAfter? i.stack with
      | none => .error Stack.underflow i
      | some stack => .ok (setting.emission op i) { op.reset i with stack := stack } := by
  obtain ⟨stack, page, index, runs, diagnostics⟩ := i
  rcases stack with - | ⟨s, below⟩
  · -- every first action fails, but the beginning of a page needs no state
    cases op <;> rfl
  · let i : Interpreter := ⟨[], page, index, runs, diagnostics⟩
    cases op with
    | endPage => exact endPage_cons setting i s below
    | endText => cases below <;> rfl
    | showText text => exact showText_cons setting text i s below
    | nextLineShow text => exact nextLineShow_cons setting text i s below
    | setSpacingNextLineShow wordSpacing charSpacing text =>
      exact nextLineShow_cons setting text i _ below
    | showSpaced items => exact showSpaced_cons setting i s below items
    | _ => rfl

/-- **What is left of an operator's runs** after those outside of the media box
are dropped joins the runs of the page. -/
theorem dispatch_eq (setting : Setting) (op : Operator) (i : Interpreter) :
    dispatch setting op i = match op.stackAfter? i.stack with
      | none => .error Stack.underflow i
      | some stack =>
        .ok ((setting.emission op i).filterRuns setting.options.keeps)
          (setting.after op stack i) := by
  have hperform := perform_eq setting op i
  rcases hstack : op.stackAfter? i.stack with - | stack
  · rw [hstack] at hperform
    exact bind_of_error hperform
  · rw [hstack] at hperform
    rw [dispatch, bind_of_ok hperform]
    simp only [Setting.after, Setting.kept, ← setting.emission_runs op i]
    rfl

end Interpreter

end PageText
