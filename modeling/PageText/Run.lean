/-
PageText/Run.lean

Runs of text with their place on the page, and how a string becomes runs: one
for each character, placed in the state that the characters before it have
moved along.

The string is shown in a copy of the top state, which is taken off again at
the end, so what is shown never moves the text that follows it.
-/
import PageText.Geometry.Box
import PageText.Metrics
import PageText.Notice
import PageText.State.Stack

namespace PageText

/-- Text with its origin and size on the page. -/
structure Run (α : Type) where
  x : α
  y : α
  width : α
  height : α
  content : String
deriving DecidableEq

namespace Run

variable {α : Type}

/-- The point where the text starts. -/
def origin (run : Run α) : Point α := ⟨run.x, run.y⟩

/-- The corners of the rectangle that the text takes up, from its origin. -/
def bounds [Add α] (run : Run α) : List α :=
  [run.x, run.y, run.x + run.width, run.y + run.height]

end Run

/-- Runs that were emitted, and what was reported on the way. -/
structure Emission (α : Type) where
  runs : Array (Run α) := #[]
  notices : Array Notice := #[]

namespace Emission

variable {α : Type}

/-- Nothing. -/
def empty : Emission α := {}

/-- A notice alone. -/
def notice (n : Notice) : Emission α := { notices := #[n] }

/-- One emission after another. -/
def append (first second : Emission α) : Emission α where
  runs := first.runs ++ second.runs
  notices := first.notices ++ second.notices

/-- The emission with the runs that pass a test. -/
def filterRuns (e : Emission α) (keep : Run α → Bool) : Emission α :=
  { e with runs := e.runs.filter keep }

end Emission

/-! ### Placing a character -/

/-- The notice of a lookup that failed. -/
def lookupNotice : Error → Notice
  | .noMetrics ch => .metricsMissing ch
  | error => .metricsFailed error

/-- The answer of a lookup, or what stands in for it with a notice. -/
def orElseNotice {β : Type} (lookup : Except Error β) (standIn : β) : β × Array Notice :=
  match lookup with
  | .ok answer => (answer, #[])
  | .error error => (standIn, #[lookupNotice error])

/-- How characters become glyphs. -/
structure Typesetter (α : Type) where
  metrics : Metrics α
  /-- The character that word spacing follows. -/
  wordSeparator : Char

/-- A character in its place. -/
structure Placement (α : Type) where
  run : Run α
  /-- How far the origin moves along the line, in text space. -/
  advance : α
  /-- The lookups that failed. -/
  notices : Array Notice

namespace Typesetter

variable {α : Type} [Scalar α]

open Scalar (zero one)

/-- Places a character in a state.  Metrics that cannot be had count as zero,
each by itself. -/
def place (t : Typesetter α) (ch : Char) (s : TextState α) : Placement α :=
  let glyph := (Transform.ofGlyph s.fontSize s.horizontalScale s.rise).andThen s.matrix
  let (width, noWidth) := orElseNotice (t.metrics.width ch s) zero
  let (height, noHeight) := orElseNotice (t.metrics.height ch s) zero
  let (displacement, noDisplacement) :=
    orElseNotice (t.metrics.displacement ch s) ⟨zero, zero⟩
  let spacing := if ch = t.wordSeparator then s.wordSpacing else s.charSpacing
  { run := {
      x := glyph.origin.x
      y := glyph.origin.y
      width := width * (one + s.horizontalScale / Scalar.ofNat 100)
      height := height
      content := String.singleton ch }
    advance :=
      ((displacement.x - s.adjustment / Scalar.ofNat 1000) * s.fontSize + spacing)
        * s.horizontalScale
    notices := noWidth ++ noHeight ++ noDisplacement }

/-- Places characters one after another, moving the top state along. -/
def placeAll (t : Typesetter α) (shown : Emission α) : List Char → Stack.Action α (Emission α)
  | [] => pure shown
  | ch :: rest => do
    let s ← Stack.top
    let placement := t.place ch s
    Stack.modifyTop (·.move placement.advance zero)
    t.placeAll ⟨shown.runs.push placement.run, shown.notices ++ placement.notices⟩ rest

/-- Shows a string from the top state, in a copy of it. -/
def showText (t : Typesetter α) (text : String) : Stack.Action α (Emission α) := do
  Stack.pushCopy
  let shown ← t.placeAll .empty text.toList
  Stack.pop
  return shown

end Typesetter

end PageText
