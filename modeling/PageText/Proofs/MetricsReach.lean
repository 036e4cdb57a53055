/-
PageText/Proofs/MetricsReach.lean

How far metrics and the word separator reach.  They move the next character of
a string along, but they do so in the copy of the state that the string is shown
in; so two interpreters that differ in them go through the same stacks, pages,
counts and diagnostics, fail together, and return the same texts.

Of the runs themselves the first one of each string stands where the state says
(`TextState.glyphOrigin`), before any character has moved it.

Main result: `process_metrics`.
-/
import PageText.Proofs.Conservation
import PageText.Proofs.History

namespace PageText

/-! ### Where a string starts -/

/-- Where the next glyph of a state stands on the page. -/
def TextState.glyphOrigin {α : Type} [Scalar α] (s : TextState α) : Point α :=
  ((Transform.ofGlyph s.fontSize s.horizontalScale s.rise).andThen s.matrix).origin

/-- Where the first of the runs stands, if there is one. -/
def start? (runs : List (Run Float)) : Option (Point Float) := runs.head?.map Run.origin

/-- Where each of the strings starts that are shown by the runs, a run for every
character; nothing for an empty string. -/
def starts : List String → List (Run Float) → List (Option (Point Float))
  | [], _ => []
  | text :: rest, runs => start? (runs.take text.length) :: starts rest (runs.drop text.length)

/-- Where a string starts when it is shown from a state. -/
def startIn (s : TextState Float) (text : String) : Option (Point Float) :=
  text.toList.head?.map fun _ => s.glyphOrigin

theorem starts_append {text : String} {first : List (Run Float)}
    (hlength : first.length = text.length) (rest : List String) (others : List (Run Float)) :
    starts (text :: rest) (first ++ others) = start? first :: starts rest others := by
  rw [starts, List.take_left' hlength, List.drop_left' hlength]

/-- The first character is placed in the state itself. -/
theorem start?_shown (t : Typesetter Float) (s : TextState Float) (text : String) :
    start? (t.shown s text.toList).runs.toList = startIn s text := by
  rw [startIn]
  cases text.toList with
  | nil => rfl
  | cons ch rest =>
    rw [Typesetter.shown, Emission.append_runs, Array.toList_append]
    rfl

theorem length_shown (t : Typesetter Float) (s : TextState Float) (text : String) :
    (t.shown s text.toList).runs.toList.length = text.length := by
  have h := congrArg List.length (t.shown_contents text.toList s)
  rwa [List.length_map, List.length_map, String.length_toList] at h

/-- A string alone. -/
theorem starts_shown (t : Typesetter Float) (s : TextState Float) (text : String) :
    starts [text] (t.shown s text.toList).runs.toList = [startIn s text] := by
  have h := starts_append (length_shown t s text) [] []
  rwa [List.append_nil, start?_shown] at h

/-- Adjustments between strings do not move where they start. -/
theorem starts_shownItems (setting : Setting) (items : List TextItem) :
    ∀ s : TextState Float,
      starts (items.filterMap TextItem.text?) (setting.shownItems s items).runs.toList
        = (items.filterMap TextItem.text?).map (startIn s) := by
  induction items with
  | nil =>
    intro s
    rfl
  | cons item rest ih =>
    intro s
    cases item with
    | adjustment value => exact ih { s with adjustment := value }
    | text text =>
      -- the runs of this string come first, one for each of its characters
      rw [Setting.shownItems, Emission.append_runs, Array.toList_append]
      exact (starts_append (length_shown _ s text) _ _).trans
        (congrArg₂ List.cons (start?_shown _ s text) (ih s))

/-- **Where an operator starts its strings** is told by the state alone. -/
theorem starts_showing (setting : Setting) (op : Operator) (s : TextState Float)
    (below : Stack Float) :
    starts op.texts (setting.showing op (s :: below)).runs.toList
      = op.texts.map (startIn (op.change s)) := by
  cases op with
  | showText text | nextLineShow text | setSpacingNextLineShow wordSpacing charSpacing text =>
    exact starts_shown _ _ text
  | showSpaced items => exact starts_shownItems setting items s
  | _ => rfl

theorem Event.starts_kept (setting other : Setting) (event : Event) (stack : Stack Float) :
    starts event.shownTexts (event.kept setting.unclipped stack).toList
      = starts event.shownTexts (event.kept other.unclipped stack).toList := by
  rcases hop : Operator.ofEvent? event with rejection | - | op
  · simp only [kept, hop]
  · simp only [kept, hop]
  · rw [← texts_of_ofEvent? hop]
    simp only [kept, hop, Setting.kept_unclipped]
    rcases stack with - | ⟨s, below⟩
    · rfl
    · rw [starts_showing, starts_showing]

/-! ### Two interpreters -/

namespace Interpreter

/-- The interpreters differ in their runs at most. -/
structure Alike (i j : Interpreter) : Prop where
  stack : i.stack = j.stack
  page : i.page = j.page
  nextIndex : i.nextIndex = j.nextIndex
  diagnostics : i.diagnostics = j.diagnostics

theorem Alike.of_runs (i : Interpreter) (runs runs' : Array (Run Float)) :
    Alike { i with runs := runs } { i with runs := runs' } :=
  ⟨rfl, rfl, rfl, rfl⟩

/-- Two calls that process the event have the same outcome: the same error, or
runs with the same contents in the same order, a run for every character of the
strings of the event, that start each string at the same point. -/
def SameOutcome (event : Event) :
    Except Error (Array (Run Float)) → Except Error (Array (Run Float)) → Prop
  | .ok runs, .ok runs' =>
    runs.toList.map Run.content = runs'.toList.map Run.content
      ∧ runs.toList.map Run.content = characters event.shownTexts
      ∧ starts event.shownTexts runs.toList = starts event.shownTexts runs'.toList
  | .error error, .error error' => error = error'
  | _, _ => False

/-- The runs of an event that finds what it needs hold its strings. -/
theorem contents_kept (setting : Setting) {event : Event} (hpage : event.beginsPage = false)
    {stack stack' : Stack Float} (h : event.stackAfter? stack = some stack') :
    (event.kept setting.unclipped stack).toList.map Run.content = characters event.shownTexts := by
  have hanswer : answer setting.unclipped event { stack := stack } = _ :=
    answer_of_not_beginsPage hpage
  simp only [h] at hanswer
  exact contents_of_answer rfl hanswer

variable (setting other : Setting) {i j : Interpreter}

/-- One event. -/
theorem Alike.answer (h : Alike i j) (event : Event) :
    SameOutcome event (answer setting.unclipped event i).1 (answer other.unclipped event j).1
      ∧ Alike (answer setting.unclipped event i).2 (answer other.unclipped event j).2 := by
  rcases hpage : event.beginsPage with - | -
  · rw [answer_of_not_beginsPage hpage, answer_of_not_beginsPage hpage, ← h.stack, ← h.page,
      ← h.nextIndex, ← h.diagnostics]
    rcases hstack : event.stackAfter? i.stack with - | stack
    · exact ⟨rfl, rfl, rfl, rfl, rfl⟩
    · -- both hold the strings of the event, character by character
      have hcontents := contents_kept setting hpage hstack
      have hsame := hcontents.trans (contents_kept other hpage hstack).symm
      refine ⟨⟨hsame, hcontents, event.starts_kept setting other i.stack⟩, ?_⟩
      exact .of_runs ⟨stack, i.page, i.nextIndex + 1, #[], _⟩ _ _
  · obtain ⟨page, hop⟩ := Event.exists_page hpage
    have hshown : event.shownTexts = [] := (texts_of_ofEvent? hop).symm
    rw [answer_of_beginPage hop, answer_of_beginPage hop]
    refine ⟨⟨rfl, ?_, rfl⟩, rfl, rfl, rfl, rfl⟩
    rw [hshown]
    rfl

/-- Any number of events. -/
theorem Alike.afterEach (events : List Event) :
    ∀ {i j : Interpreter}, Alike i j →
      Alike (afterEach setting.unclipped events i) (afterEach other.unclipped events j) := by
  induction events with
  | nil =>
    intro i j h
    exact h
  | cons event rest ih =>
    intro i j h
    exact ih (h.answer setting other event).2

/-- **Metrics and the word separator do not reach the state.**  Two interpreters
without a media box, with any metrics and separators, have the same stack, page,
count and diagnostics after any events; and the next event returns the same error
in both, or runs with the same contents that start each string at the same
point. -/
theorem process_metrics (events : List Event) :
    let i := afterEach setting.unclipped events {}
    let j := afterEach other.unclipped events {}
    (i.stack = j.stack ∧ i.page = j.page ∧ i.nextIndex = j.nextIndex
        ∧ i.diagnostics = j.diagnostics)
      ∧ ∀ event, SameOutcome event (process setting.unclipped event i).1.result
          (process other.unclipped event j).1.result := by
  intro i j
  have halike : Alike i j := Alike.afterEach setting other events ⟨rfl, rfl, rfl, rfl⟩
  refine ⟨⟨halike.stack, halike.page, halike.nextIndex, halike.diagnostics⟩, ?_⟩
  intro event
  exact (halike.answer setting other event).1

end Interpreter

end PageText
