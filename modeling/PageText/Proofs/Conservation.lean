/-
PageText/Proofs/Conservation.lean

No text is lost.  Without a media box the contents of the runs that events
return are, character by character, the strings of the events that show text:
in their order, each character once, and whatever events stand between them.

One event at a time this is `contents_of_answer`: a rejected event, an unknown
one and an operator that does not show text return no run, and one that does
returns a run for every character of its strings.  The main result is
`contents_returned`, for lists of events from any interpreter.
-/
import PageText.Proofs.Operands
import PageText.Proofs.Processing

namespace PageText

/-- The contents that runs have to have when strings are shown: each character
by itself. -/
def characters (texts : List String) : List String :=
  (texts.flatMap String.toList).map String.singleton

@[simp] theorem characters_nil : characters [] = [] := rfl

theorem characters_append (first second : List String) :
    characters (first ++ second) = characters first ++ characters second := by
  simp only [characters, List.flatMap_append, List.map_append]

theorem characters_cons (text : String) (rest : List String) :
    characters (text :: rest) = text.toList.map String.singleton ++ characters rest := by
  simp only [characters, List.flatMap_cons, List.map_append]

/-- Joined again, the characters are the strings. -/
theorem join_characters (texts : List String) :
    String.join (characters texts) = String.join texts := by
  have hsingle : ∀ chars : List Char,
      (chars.map String.singleton).flatMap String.toList = chars := by
    intro chars
    rw [List.flatMap_map]
    simp only [String.toList_singleton, List.flatMap_singleton']
  apply String.toList_injective
  rw [String.toList_join, String.toList_join, characters, hsingle]

/-! ### One operator -/

theorem shownItems_contents (setting : Setting) (items : List TextItem) :
    ∀ s : TextState Float,
      (setting.shownItems s items).runs.toList.map Run.content
        = characters (items.filterMap TextItem.text?) := by
  induction items with
  | nil =>
    intro s
    rfl
  | cons item rest ih =>
    intro s
    cases item with
    | adjustment value =>
      rw [Setting.shownItems, ih]
      rfl
    | text text =>
      rw [Setting.shownItems, Emission.append_runs, Array.toList_append, List.map_append, ih,
        Typesetter.shown_contents]
      exact (characters_cons _ _).symm

/-- An operator shows its strings. -/
theorem showing_contents (setting : Setting) (op : Operator) (s : TextState Float)
    (below : Stack Float) :
    (setting.showing op (s :: below)).runs.toList.map Run.content = characters op.texts := by
  have hone : ∀ text : String, characters [text] = text.toList.map String.singleton := by
    intro text
    rw [characters_cons, characters_nil, List.append_nil]
  cases op with
  | showText text | nextLineShow text | setSpacingNextLineShow wordSpacing charSpacing text =>
    exact (Typesetter.shown_contents _ _ _).trans (hone text).symm
  | showSpaced items => exact shownItems_contents setting items s
  | _ => rfl

/-- Without a media box every run is kept. -/
theorem kept_of_no_box {setting : Setting} (hbox : setting.options.mediaBox = none)
    (op : Operator) (stack : Stack Float) :
    setting.kept op stack = (setting.showing op stack).runs := by
  have hkeeps : ∀ run : Run Float, setting.options.keeps run = true := by
    intro run
    rw [Options.keeps, hbox]
  rw [Setting.kept, Array.filter_eq_self]
  exact fun run _ => hkeeps run

/-- The setting without a media box. -/
def Setting.unclipped (setting : Setting) : Setting :=
  { setting with options := { setting.options with mediaBox := none } }

theorem Setting.kept_unclipped (setting : Setting) (op : Operator) (stack : Stack Float) :
    setting.unclipped.kept op stack = (setting.unclipped.showing op stack).runs :=
  kept_of_no_box rfl op stack

/-! ### One event -/

/-- The runs that an event returns hold its strings. -/
theorem contents_of_answer {setting : Setting} (hbox : setting.options.mediaBox = none)
    {event : Event} {i i' : Interpreter} {runs : Array (Run Float)}
    (h : Interpreter.answer setting event i = (.ok runs, i')) :
    runs.toList.map Run.content = characters event.shownTexts := by
  rcases hop : Operator.ofEvent? event with rejection | - | op
  · rw [Interpreter.answer_of_rejected hop] at h
    obtain rfl : #[] = runs := Except.ok.inj (Prod.mk.inj h).1
    rw [Event.shownTexts, hop]
    rfl
  · rw [Interpreter.answer_of_unknown hop] at h
    obtain rfl : #[] = runs := Except.ok.inj (Prod.mk.inj h).1
    rw [Event.shownTexts, hop]
    rfl
  · rw [← texts_of_ofEvent? hop]
    rw [Interpreter.answer_of_operator hop] at h
    rcases hstack : op.stackAfter? i.stack with - | stack
    · rw [hstack] at h
      cases (Prod.mk.inj h).1
    · rw [hstack] at h
      obtain rfl : setting.kept op i.stack = runs := Except.ok.inj (Prod.mk.inj h).1
      rw [kept_of_no_box hbox]
      rcases hi : i.stack with - | ⟨s, below⟩
      · -- only the beginning of a page needs no state, and it shows nothing
        rw [hi] at hstack
        cases op <;> first | rfl | cases hstack
      · exact showing_contents setting op s below

/-! ### Events in a row -/

namespace Interpreter

/-- The runs that events return hold the strings of those that returned. -/
theorem contents_of_returned {setting : Setting} (hbox : setting.options.mediaBox = none)
    (events : List Event) :
    ∀ i : Interpreter, ((returned setting events i).flatMap Array.toList).map Run.content
      = characters
        ((events.take (returned setting events i).length).flatMap Event.shownTexts) := by
  induction events with
  | nil =>
    intro i
    rfl
  | cons event rest ih =>
    intro i
    rcases hanswer : answer setting event i with ⟨error | runs, i'⟩
    · simp only [returned, hanswer]
      rfl
    · have hfirst := contents_of_answer hbox hanswer
      simp only [returned, hanswer, List.flatMap_cons, List.map_append, List.length_cons,
        List.take_succ_cons, characters_append, hfirst, ih i']

/-- **No text is lost.**  The runs that events return hold, one character each,
the strings of the events up to the one that ends the page, which is the only
one that returns nothing.  A list that is executed to its end gives them all. -/
theorem contents_returned (setting : Setting) (hbox : setting.options.mediaBox = none)
    (events : List Event) (i : Interpreter) :
    let emitted := returned setting events i
    let shown := (events.take emitted.length).flatMap Event.shownTexts
    (emitted.flatMap Array.toList).map Run.content = characters shown
      ∧ String.join ((emitted.flatMap Array.toList).map Run.content) = String.join shown
      ∧ match (execute setting events i).1.result with
        | .ok runs => emitted.length = events.length ∧ runs.toList = emitted.flatMap Array.toList
        | .error error => (∃ page index, error = .underflow page index)
          ∧ ∃ failing, StopsAt setting events i (events.take emitted.length) failing error := by
  intro emitted shown
  -- the contents do not ask whether the list came to its end
  have hcontents : (emitted.flatMap Array.toList).map Run.content = characters shown :=
    contents_of_returned hbox events i
  refine ⟨hcontents, ?_, ?_⟩
  · rw [hcontents, join_characters]
  · rcases hresult : (execute setting events i).1.result with error | runs
    · obtain ⟨done, failing, hstops, hstate, hlength⟩ := stopsAt_of_error events hresult
      have htake : events.take emitted.length = done := by
        obtain ⟨rest, hsplit⟩ := hstops.split
        rw [hlength, hsplit, List.take_left]
      refine ⟨?_, failing, htake ▸ hstops⟩
      exact ⟨_, _, (answer_error (Prod.ext hstops.fails rfl)).1⟩
    · exact returned_of_ok events hresult

/-- No font has widths here, `Tj` lacks its string, `re` is not known, and `ET`
ends the page before `(e) Tj` is shown. -/
theorem contents_returned_among_skipped_events :
    let setting : Setting := { metrics := ({} : WidthTable).metrics }
    let events : List Event :=
      [⟨"TJ", [.array [.text "ab", .number (-250), .text "c"]]⟩, ⟨"Tj", []⟩, ⟨"re", []⟩,
        ⟨"'", [.text "d"]⟩, ⟨"ET", []⟩, ⟨"Tj", [.text "e"]⟩]
    let emitted := returned setting events { stack := Stack.page }
    setting.options.mediaBox = none
      ∧ String.join ((emitted.flatMap Array.toList).map Run.content) = "abcd" := by
  intro setting events emitted
  have hshown : (events.take emitted.length).flatMap Event.shownTexts = ["ab", "c", "d"] := by
    decide +kernel
  refine ⟨rfl, ?_⟩
  have hcontents := (contents_returned setting rfl events { stack := Stack.page }).2.1
  rw [hshown] at hcontents
  exact hcontents

end Interpreter

end PageText
