/-
PageText/Proofs/TextObjects.lean

Text objects enclose what happens in them.  Events that begin and end text
objects are counted: as long as no more are ended than begun (`Nested`), every
event finds a state above those that were there before, works on that one, and
leaves what is below alone.

`Above` says where an interpreter stands after such events: on the same page,
with as many states above the old ones as there are text objects open.  One
event keeps it (`Above.step`), and so does a list of them (`above_of_nested`).

Main result: `execute_textObject`.  A text object whose events are balanced is
executed to its end and leaves the stack as it was.
-/
import PageText.Proofs.Scopes
import Mathlib.Data.List.Infix

namespace PageText

/-! ### Balance -/

/-- How many text objects events begin. -/
def begun (events : List Event) : Nat := events.countP Event.beginsText

/-- How many text objects events end. -/
def ended (events : List Event) : Nat := events.countP Event.endsText

/-- No text object is ended before it is begun. -/
def Nested (events : List Event) : Prop := ∀ first, first <+: events → ended first ≤ begun first

instance (events : List Event) : Decidable (Nested events) :=
  decidable_of_iff (∀ first ∈ events.inits, ended first ≤ begun first)
    (forall_congr' fun first => by rw [List.mem_inits])

/-- Text objects are ended after they are begun, and every one that is begun is
ended. -/
structure Balanced (events : List Event) : Prop where
  nested : Nested events
  settled : ended events = begun events

theorem begun_append (first second : List Event) :
    begun (first ++ second) = begun first + begun second := List.countP_append

theorem ended_append (first second : List Event) :
    ended (first ++ second) = ended first + ended second := List.countP_append

theorem Nested.of_prefix {first events : List Event} (h : Nested events) (hfirst : first <+: events) :
    Nested first := fun earlier hearlier => h earlier (hearlier.trans hfirst)

namespace Event

/-- Whether the event neither begins nor ends a page. -/
def staysOnPage (event : Event) : Bool := !event.beginsPage && !event.endsPage

variable {event : Event}

theorem beginsPage_of_staysOnPage (h : event.staysOnPage = true) : event.beginsPage = false := by
  rw [staysOnPage, Bool.and_eq_true, Bool.not_eq_true'] at h
  exact h.1

theorem endsPage_of_staysOnPage (h : event.staysOnPage = true) : event.endsPage = false := by
  rw [staysOnPage, Bool.and_eq_true, Bool.not_eq_true', Bool.not_eq_true'] at h
  exact h.2

theorem endsText_of_beginsText (h : event.beginsText = true) : event.endsText = false := by
  rw [← Bool.not_eq_true, endsText_iff, beginsText_iff.mp h]
  intro hends
  cases hends

theorem count_of_endsText (h : event.endsText = true) : ended [event] = 1 ∧ begun [event] = 0 := by
  rw [ended, begun, List.countP_singleton, List.countP_singleton, if_pos h, if_neg]
  · exact ⟨rfl, rfl⟩
  · intro hbegin
    rw [endsText_of_beginsText hbegin] at h
    cases h

theorem ended_eq_zero (h : event.endsText = false) : ended [event] = 0 := by
  rw [ended, List.countP_singleton, h]
  rfl

/-- An event works on the top state, or puts one on it or takes it off: what is
below stays. -/
theorem stackAfter?_above (hstays : event.staysOnPage = true) (s : TextState Float)
    (above base : Stack Float) (hends : event.endsText = true → above ++ base ≠ []) :
    ∃ above', event.stackAfter? (s :: (above ++ base)) = some (above' ++ base)
      ∧ above'.length + ended [event] = above.length + 1 + begun [event] := by
  rw [stackAfter?_cons (beginsPage_of_staysOnPage hstays), endsPage_of_staysOnPage hstays, begun,
    ended, List.countP_singleton, List.countP_singleton]
  rcases hbegin : event.beginsText with - | -
  · rcases hend : event.endsText with - | -
    · exact ⟨event.change s :: above, rfl, rfl⟩
    · refine ⟨above, ?_, rfl⟩
      have hstate : (above ++ base).isEmpty = false := by
        rw [← Bool.not_eq_true, List.isEmpty_iff]
        exact hends hend
      rw [hstate]
      rfl
  · rw [endsText_of_beginsText hbegin]
    exact ⟨s :: s :: above, rfl, rfl⟩

end Event

namespace Interpreter

/-! ### States above others -/

/-- Where an interpreter stands that was at `i` with one state above `base` and
then processed `events` on the same page. -/
structure Above (base : Stack Float) (i : Interpreter) (events : List Event) (i' : Interpreter) :
    Prop where
  page : i'.page = i.page
  nextIndex : i'.nextIndex = i.nextIndex + events.length
  /-- Every text object that is open has a state, and the first state stays. -/
  stack : ∃ above, i'.stack = above ++ base ∧ above.length + ended events = 1 + begun events

variable {setting : Setting} {base : Stack Float} {i i' : Interpreter} {events : List Event}
  {event : Event}

theorem Above.nil {s : TextState Float} (hi : i.stack = s :: base) : Above base i [] i where
  page := rfl
  nextIndex := rfl
  stack := ⟨[s], hi, rfl⟩

/-- As long as text objects are nested, one event after the other is processed
above the old states. -/
theorem Above.step (setting : Setting) (h : Above base i events i')
    (hstays : event.staysOnPage = true) (hnested : Nested (events ++ [event])) :
    ∃ runs i'', answer setting event i' = (.ok runs, i'')
      ∧ Above base i (events ++ [event]) i'' := by
  obtain ⟨above, hstack, hcount⟩ := h.stack
  have hbefore : ended events ≤ begun events := hnested events (List.prefix_append _ _)
  have hafter : ended events + ended [event] ≤ begun events + begun [event] := by
    rw [← ended_append, ← begun_append]
    exact hnested _ (List.prefix_refl _)
  rcases above with - | ⟨s, above⟩
  · -- the first state is still there
    rw [List.length_nil] at hcount
    omega
  · have hends : event.endsText = true → above ++ base ≠ [] := by
      intro hend hnil
      obtain ⟨hone, hnone⟩ := Event.count_of_endsText hend
      obtain ⟨rfl, -⟩ := List.append_eq_nil_iff.mp hnil
      rw [List.length_singleton] at hcount
      omega
    obtain ⟨above', hchanged, hlength⟩ := Event.stackAfter?_above hstays s above base hends
    rw [answer_of_not_beginsPage (Event.beginsPage_of_staysOnPage hstays), hstack, List.cons_append,
      hchanged]
    refine ⟨_, _, rfl, h.page, ?_, above', rfl, ?_⟩
    · show i'.nextIndex + 1 = _
      rw [h.nextIndex, List.length_append, Nat.add_assoc]
      rfl
    · rw [ended_append, begun_append]
      rw [List.length_cons] at hcount
      omega

/-- **Nested events are executed to their end**, above the old states. -/
theorem above_of_nested (setting : Setting) {s : TextState Float} (hi : i.stack = s :: base)
    (events : List Event) (hstays : ∀ event ∈ events, event.staysOnPage = true)
    (hnested : Nested events) :
    ∃ runs i', outcome setting events i = (.ok runs, i') ∧ Above base i events i' := by
  -- by the last event, whose part in the balance is known once the others are counted
  induction events using List.reverseRecOn with
  | nil => exact ⟨#[], i, rfl, .nil hi⟩
  | append_singleton events event ih =>
    have hstaysAll : ∀ event ∈ events, event.staysOnPage = true :=
      fun earlier hearlier => hstays earlier (List.mem_append_left _ hearlier)
    have hstaysLast : event.staysOnPage = true :=
      hstays event (List.mem_append_right _ List.mem_cons_self)
    obtain ⟨runs, i', hbefore, habove⟩ := ih hstaysAll (hnested.of_prefix (List.prefix_append _ _))
    obtain ⟨more, i'', hlast, habove'⟩ := habove.step setting hstaysLast hnested
    refine ⟨runs ++ more, i'', ?_, habove'⟩
    rw [outcome_append_of_ok hbefore, outcome_singleton, hlast]
    rfl

/-! ### Text objects -/

theorem answer_of_beginsText (setting : Setting) (hbegin : event.beginsText = true)
    {s : TextState Float} (hi : i.stack = s :: base) :
    ∃ runs i', answer setting event i = (.ok runs, i') ∧ i'.stack = s :: s :: base := by
  rw [answer_of_operator (Event.beginsText_iff.mp hbegin), hi]
  exact ⟨_, _, rfl, rfl⟩

theorem answer_of_endsText (setting : Setting) (hend : event.endsText = true)
    {s : TextState Float} (hbase : base ≠ []) (hi : i.stack = s :: base) :
    ∃ runs i', answer setting event i = (.ok runs, i') ∧ i'.stack = base := by
  obtain ⟨t, below, rfl⟩ := List.exists_cons_of_ne_nil hbase
  rw [answer_of_operator (Event.endsText_iff.mp hend), hi]
  exact ⟨_, _, rfl, rfl⟩

/-- **Text objects enclose what happens in them.**  Between the beginning and
the end of a text object stand events that stay on the page and are balanced.
All of it is executed, and the stack is the one that was there before; and after
every event in between the states that were there before are still there, below
one for each text object that is open. -/
theorem execute_textObject (setting : Setting) (i : Interpreter) (hpage : i.stack ≠ [])
    {opening closing : Event} (hopening : opening.beginsText = true)
    (hclosing : closing.endsText = true) (events : List Event)
    (hstays : ∀ event ∈ events, event.staysOnPage = true) (hbalanced : Balanced events) :
    let whole := execute setting (opening :: events ++ [closing]) i
    (∃ runs, whole.1.result = .ok runs) ∧ whole.2.stack = i.stack
      ∧ ∀ first, first <+: events →
        let part := execute setting (opening :: first) i
        (∃ runs, part.1.result = .ok runs)
          ∧ ∃ above, part.2.stack = above ++ i.stack
            ∧ above.length + ended first = 1 + begun first := by
  intro whole
  obtain ⟨s, below, hi⟩ := List.exists_cons_of_ne_nil hpage
  obtain ⟨runs, i₁, hopened, hi₁⟩ := answer_of_beginsText setting hopening hi
  rw [← hi] at hi₁
  -- what holds after the opening event and a part of the others
  have hpart : ∀ first, first <+: events → ∃ runs i', outcome setting (opening :: first) i
      = (.ok runs, i') ∧ Above i.stack i₁ first i' := by
    intro first hfirst
    obtain ⟨more, i', hrun, habove⟩ := above_of_nested setting hi₁ first
      (fun event hevent => hstays event (hfirst.subset hevent)) (hbalanced.nested.of_prefix hfirst)
    refine ⟨runs ++ more, i', ?_, habove⟩
    rw [outcome_cons_of_ok hopened, hrun]
    rfl
  obtain ⟨before, i₂, hbefore, habove⟩ := hpart events (List.prefix_refl _)
  obtain ⟨above, hstack, hcount⟩ := habove.stack
  -- as many are ended as begun, so only the copy that the opening event made is left
  obtain ⟨t, rfl⟩ : ∃ t, above = [t] := by
    rw [hbalanced.settled] at hcount
    exact List.length_eq_one_iff.mp (Nat.add_right_cancel hcount)
  obtain ⟨last, i₃, hclosed, hi₃⟩ := answer_of_endsText setting hclosing hpage hstack
  have hwhole : outcome setting (opening :: events ++ [closing]) i = (.ok (before ++ last), i₃) := by
    rw [outcome_append_of_ok hbefore, outcome_singleton, hclosed]
    rfl
  refine ⟨⟨_, congrArg Prod.fst hwhole⟩, ?_, ?_⟩
  · exact (congrArg (fun result => result.2.stack) hwhole).trans hi₃
  · intro first hfirst part
    obtain ⟨runs, i', hrun, habove⟩ := hpart first hfirst
    obtain ⟨above, hstack, hcount⟩ := habove.stack
    refine ⟨⟨runs, congrArg Prod.fst hrun⟩, above, ?_, hcount⟩
    exact (congrArg (fun result => result.2.stack) hrun).trans hstack

/-- Another text object in either spelling, an array of text, an `ET` that does
not fit and a name that is no operator stand within this one. -/
theorem execute_textObject_with_nested_events :
    let i : Interpreter := { stack := Stack.page }
    let opening : Event := ⟨"BT", []⟩
    let closing : Event := ⟨"end_text_object", []⟩
    let events : List Event :=
      [⟨"TJ", [.array [.text "a", .text "b"]]⟩, ⟨"begin_text_object", []⟩, ⟨"T*", []⟩,
        ⟨"ET", [.bool true]⟩, ⟨"re", []⟩, ⟨"ET", []⟩, ⟨"Tj", [.text "c"]⟩]
    let whole := execute {} (opening :: events ++ [closing]) i
    i.stack ≠ [] ∧ opening.beginsText = true ∧ closing.endsText = true
      ∧ (∀ event ∈ events, event.staysOnPage = true) ∧ Balanced events
      ∧ (∃ runs, whole.1.result = .ok runs) ∧ whole.2.stack = i.stack := by
  intro i opening closing events whole
  have hpage : i.stack ≠ [] := List.cons_ne_nil _ _
  have hopening : opening.beginsText = true := by decide
  have hclosing : closing.endsText = true := by decide
  have hstays : ∀ event ∈ events, event.staysOnPage = true := by decide +kernel
  have hbalanced : Balanced events := ⟨by decide +kernel, by decide +kernel⟩
  obtain ⟨hresult, hstack, -⟩ :=
    execute_textObject {} i hpage hopening hclosing events hstays hbalanced
  exact ⟨hpage, hopening, hclosing, hstays, hbalanced, hresult, hstack⟩

end Interpreter

end PageText
