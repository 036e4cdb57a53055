/-
PageText/Interpreter.lean

Interpreting operators page by page.

`perform` carries out one operator on the stack of text states.  `dispatch`
also drops the runs outside of the media box and keeps the others.  `process`
starts from an event: it counts it, checks it, and turns a missing state into
an error that says on which page and at which operator it happened.  An event
of no known kind, or whose operands do not fit, changes nothing but the count
and the diagnostics.  `execute` processes events until one ends the page.

Operators that are made of others are written as those others in a row: `TD`
moves and sets the leading, `'` moves to the next line and shows, `"` sets both
spacings before that.
-/
import PageText.Operator.Check
import PageText.Run

namespace PageText

/-- What may be chosen about interpretation. -/
structure Options where
  /-- The character that word spacing follows. -/
  wordSeparator : Char := ' '
  /-- Runs whose origin lies outside are dropped. -/
  mediaBox : Option Box := none

/-- Where an interpretation stands. -/
structure Interpreter where
  /-- The text states; none outside of a page. -/
  stack : Stack Float := []
  /-- The number of the page, if it has one. -/
  page : Option UInt32 := none
  /-- The number of the next event, counted from the beginning of the page. -/
  nextIndex : Nat := 0
  /-- The runs since the page began. -/
  runs : Array (Run Float) := #[]
  /-- The errors of the operators that were passed over since the page began. -/
  diagnostics : Array Error := #[]

/-- The fixed surroundings of an interpretation. -/
structure Setting where
  metrics : Metrics Float := .zero
  options : Options := {}

/-- The typesetter of a setting. -/
def Setting.typesetter (setting : Setting) : Typesetter Float :=
  ⟨setting.metrics, setting.options.wordSeparator⟩

/-- Whether a run is kept: always without a media box. -/
def Options.keeps (options : Options) (run : Run Float) : Bool :=
  match options.mediaBox with
  | some box => box.contains run.origin
  | none => true

namespace Interpreter

/-- An action of the interpreter. -/
abbrev Action (β : Type) := EStateM Error Interpreter β

/-- An action on the stack alone. -/
def onStack {β : Type} (action : Stack.Action Float β) : Action β := fun i =>
  match action i.stack with
  | .ok answer stack => .ok answer { i with stack := stack }
  | .error error stack => .error error { i with stack := stack }

/-! ### Pages -/

/-- Begins a page.  Whatever the page before left behind is dropped. -/
def beginPage (page : Option UInt32) : Action (Emission Float) := fun i =>
  let unclosed := Stack.unclosed i.stack
  let report : Emission Float :=
    if 0 < unclosed then .notice (.begunOverOpenText i.page unclosed) else .empty
  .ok report { i with stack := Stack.page, page := page, runs := #[], diagnostics := #[] }

/-- Ends the page, closing the text objects that are open. -/
def endPage : Action (Emission Float) := do
  let _ ← onStack Stack.top
  let unclosed ← onStack Stack.endPage
  let page := (← get).page
  if 0 < unclosed then return .notice (.endedWithOpenText page unclosed)
  return .empty

/-! ### State and position -/

/-- Changes the top text state. -/
def modifyState (change : TextState Float → TextState Float) : Action Unit :=
  onStack (Stack.modifyTop change)

/-- Sets the spacing after characters. -/
def setCharSpacing (spacing : Float) : Action Unit :=
  modifyState ({ · with charSpacing := spacing })

/-- Sets the spacing after the word separator. -/
def setWordSpacing (spacing : Float) : Action Unit :=
  modifyState ({ · with wordSpacing := spacing })

/-- Sets the step to the next line. -/
def setLeading (leading : Float) : Action Unit :=
  modifyState ({ · with leading := leading })

/-- Moves the origin within the text. -/
def moveLine (dx dy : Float) : Action Unit := modifyState (·.move dx dy)

/-- Moves the origin and makes the step up the one to the next line. -/
def moveLineSetLeading (dx dy : Float) : Action Unit := do
  moveLine dx dy
  setLeading dy

/-- Moves to the start of the next line. -/
def nextLine : Action Unit := modifyState (·.nextLine)

/-! ### Showing text -/

variable (setting : Setting)

/-- Shows a string. -/
def showText (text : String) : Action (Emission Float) :=
  onStack (setting.typesetter.showText text)

/-- Shows the strings of an array, each with the adjustment before it. -/
def showItems (shown : Emission Float) : List TextItem → Action (Emission Float)
  | [] => pure shown
  | .adjustment value :: rest => do
    modifyState ({ · with adjustment := value })
    showItems shown rest
  | .text text :: rest => do
    let more ← showText setting text
    showItems (shown.append more) rest

/-- Shows an array of text in a state of its own, so that its adjustments end
with it. -/
def showSpaced (items : List TextItem) : Action (Emission Float) := do
  onStack Stack.pushCopy
  let shown ← showItems setting .empty items
  onStack Stack.pop
  return shown

/-- Moves to the next line and shows a string. -/
def nextLineShow (text : String) : Action (Emission Float) := do
  nextLine
  showText setting text

/-- Sets both spacings, moves to the next line and shows a string. -/
def setSpacingNextLineShow (wordSpacing charSpacing : Float) (text : String) :
    Action (Emission Float) := do
  setWordSpacing wordSpacing
  setCharSpacing charSpacing
  nextLineShow setting text

/-! ### Operators -/

/-- An action that emits nothing. -/
def silently (action : Action Unit) : Action (Emission Float) := do
  action
  return .empty

/-- Carries out an operator. -/
def perform : Operator → Action (Emission Float)
  | .beginPage page => beginPage page
  | .endPage => endPage
  | .beginText => silently (onStack Stack.pushCopy)
  | .endText => silently (onStack Stack.pop)
  | .setLeading leading => silently (setLeading leading)
  | .setRise rise => silently (modifyState ({ · with rise := rise }))
  | .setCharSpacing spacing => silently (setCharSpacing spacing)
  | .setWordSpacing spacing => silently (setWordSpacing spacing)
  | .setHorizontalScale percent => silently (modifyState ({ · with horizontalScale := percent }))
  | .moveLine dx dy => silently (moveLine dx dy)
  | .moveLineSetLeading dx dy => silently (moveLineSetLeading dx dy)
  | .setFont font size =>
    silently (modifyState ({ · with font := some font, fontSize := size }))
  | .setMatrix matrix => silently (modifyState ({ · with matrix := matrix }))
  | .nextLine => silently nextLine
  | .setSpacingNextLineShow wordSpacing charSpacing text =>
    setSpacingNextLineShow setting wordSpacing charSpacing text
  | .nextLineShow text => nextLineShow setting text
  | .showText text => showText setting text
  | .showSpaced items => showSpaced setting items

/-- Carries out an operator and keeps the runs inside of the media box. -/
def dispatch (op : Operator) : Action (Emission Float) := do
  let emission ← perform setting op
  let kept := emission.filterRuns setting.options.keeps
  modify fun i => { i with runs := i.runs ++ kept.runs }
  return kept

/-! ### Events -/

/-- What came of processing: the runs that were emitted or the error that ended
the page, and what was reported on the way. -/
structure Report where
  result : Except Error (Array (Run Float))
  notices : Array Notice

/-- The operator `op`, which is event number `index`, carried out. -/
def carryOut (index : Nat) (op : Operator) (i : Interpreter) : Report × Interpreter :=
  match dispatch setting op i with
  | .ok emission i => (⟨.ok emission.runs, emission.notices⟩, i)
  | .error error i =>
    match error with
    | .underflow .. =>
      let located := Error.underflow i.page index
      (⟨.error located, #[.pageAborted located op.kind]⟩, i)
    | _ =>
      (⟨.ok #[], #[.operatorFailed i.page index error]⟩,
        { i with diagnostics := i.diagnostics.push error })

/-- Processes one event. -/
def process (event : Event) (i : Interpreter) : Report × Interpreter :=
  let index := i.nextIndex
  let counted := { i with nextIndex := index + 1 }
  match Operator.ofEvent? event with
  | .ok (some (.beginPage page)) =>
    carryOut setting 0 (.beginPage page) { i with nextIndex := 1 }
  | .ok (some op) => carryOut setting index op counted
  | .ok none => (⟨.ok #[], #[.unknownOperator event.kind]⟩, counted)
  | .error error =>
    (⟨.ok #[], #[.malformedOperator i.page index error]⟩,
      { counted with diagnostics := i.diagnostics.push error })

/-- Processes events after those that emitted `runs` and reported `notices`,
until there are no more or one ends the page. -/
def executeFrom (runs : Array (Run Float)) (notices : Array Notice) :
    List Event → Interpreter → Report × Interpreter
  | [], i => (⟨.ok runs, notices⟩, i)
  | event :: rest, i =>
    let (report, i) := process setting event i
    let notices := notices ++ report.notices
    match report.result with
    | .ok more => executeFrom (runs ++ more) notices rest i
    | .error error => (⟨.error error, notices⟩, i)

/-- Processes events until there are no more or one ends the page.  The runs
that were emitted before the page ended stay with the interpreter. -/
def execute (events : List Event) (i : Interpreter) : Report × Interpreter :=
  executeFrom setting #[] #[] events i

/-- The runs so far, and the interpreter without them. -/
def takeRuns (i : Interpreter) : Array (Run Float) × Interpreter :=
  (i.runs, { i with runs := #[] })

end Interpreter

end PageText
