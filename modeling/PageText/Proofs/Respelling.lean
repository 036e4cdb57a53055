/-
PageText/Proofs/Respelling.lean

The two spellings of a kind.  A kind has a description and may have a mnemonic,
and an event may be spelled with either.  The check looks the kind up by its
spelling and after that reads operands alone, so two spellings stand for the same
operator, or the operands fit neither, for the same reason
(`Event.Respelled.ofEvent?`).  The spelling itself shows in one place only: the
error of an event whose operands do not fit carries it.

Two lists of events that differ in spellings are processed side by side
(`SameRun.step`), and the diagnostics are what is left of the earlier ones with the
errors of the events since the latest beginning of a page
(`diagnostics_afterEach`).

Main result: `afterEach_respelled`.
-/
import PageText.Proofs.Adjustments
import Mathlib.Data.List.Forall2

namespace PageText

/-! ### Events with another spelling -/

namespace Event

/-- The events have the same operands, and their names are the same or spell the
same kind. -/
structure Respelled (event other : Event) : Prop where
  operands : event.operands = other.operands
  names : event.kind = other.kind
    ∨ ∃ kind : Kind, kind.isSpelled event.kind = true ∧ kind.isSpelled other.kind = true

/-- The operands of both events fit, or those of neither do, for the same reason;
each error names its own event as spelled. -/
def SameRejection (event other : Event) : Prop :=
  event.rejection? = none ∧ other.rejection? = none
    ∨ ∃ mismatch, event.rejection? = some (.malformed event.kind mismatch)
      ∧ other.rejection? = some (.malformed other.kind mismatch)

namespace Respelled

variable {event other : Event}

theorem ofName?_eq (h : event.Respelled other) :
    Kind.ofName? event.kind = Kind.ofName? other.kind := by
  rcases h.names with heq | ⟨kind, hevent, hother⟩
  · rw [heq]
  · rw [Kind.ofName?_eq_some_iff.mpr hevent, Kind.ofName?_eq_some_iff.mpr hother]

/-- **Both spellings are checked alike.** -/
theorem ofEvent? (h : event.Respelled other) :
    (∃ found, Operator.ofEvent? event = .ok found ∧ Operator.ofEvent? other = .ok found)
      ∨ ∃ mismatch, Operator.ofEvent? event = .error (.malformed event.kind mismatch)
        ∧ Operator.ofEvent? other = .error (.malformed other.kind mismatch) := by
  simp only [Operator.ofEvent?, ← h.ofName?_eq, ← h.operands]
  cases Kind.ofName? event.kind with
  | none => exact .inl ⟨none, rfl, rfl⟩
  | some kind =>
    cases hmade : Operator.ofOperands kind event.operands with
    | error mismatch => exact .inr ⟨mismatch, by simp only [hmade], by simp only [hmade]⟩
    | ok op => exact .inl ⟨some op, by simp only [hmade], by simp only [hmade]⟩

theorem sameRejection (h : event.Respelled other) : event.SameRejection other := by
  rcases h.ofEvent? with ⟨found, hevent, hother⟩ | ⟨mismatch, hevent, hother⟩
  · exact .inl ⟨by simp only [rejection?, hevent], by simp only [rejection?, hother]⟩
  · exact .inr ⟨mismatch, by simp only [rejection?, hevent], by simp only [rejection?, hother]⟩

theorem beginsPage_eq (h : event.Respelled other) : event.beginsPage = other.beginsPage := by
  rcases h.ofEvent? with ⟨found, hevent, hother⟩ | ⟨mismatch, hevent, hother⟩
  · simp only [beginsPage, hevent, hother]
  · simp only [beginsPage, hevent, hother]

theorem stackAfter?_eq (h : event.Respelled other) (stack : Stack Float) :
    event.stackAfter? stack = other.stackAfter? stack := by
  rcases h.ofEvent? with ⟨found, hevent, hother⟩ | ⟨mismatch, hevent, hother⟩
  · simp only [stackAfter?, hevent, hother]
  · simp only [stackAfter?, hevent, hother]

theorem kept_eq (h : event.Respelled other) (setting : Setting) (stack : Stack Float) :
    event.kept setting stack = other.kept setting stack := by
  rcases h.ofEvent? with ⟨found, hevent, hother⟩ | ⟨mismatch, hevent, hother⟩
  · simp only [kept, hevent, hother]
  · simp only [kept, hevent, hother]

end Respelled

end Event

/-! ### The events of a page -/

theorem forall₂_takeWhile {α β : Type} {R : α → β → Prop} {p : α → Bool} {q : β → Bool}
    (hpq : ∀ a b, R a b → p a = q b) {as : List α} {bs : List β} (h : List.Forall₂ R as bs) :
    List.Forall₂ R (as.takeWhile p) (bs.takeWhile q) := by
  induction h with
  | nil => exact .nil
  | @cons a b as bs hab _ ih =>
    rw [List.takeWhile_cons, List.takeWhile_cons, ← hpq a b hab]
    split
    · exact .cons hab ih
    · exact .nil

/-- A page begins at the same place. -/
theorem forall₂_sincePage {events others : List Event}
    (h : List.Forall₂ Event.Respelled events others) :
    List.Forall₂ Event.Respelled (sincePage events) (sincePage others) := by
  refine List.rel_reverse (forall₂_takeWhile ?_ (List.rel_reverse h))
  intro event other hevent
  rw [hevent.beginsPage_eq]

theorem any_beginsPage_eq {events others : List Event}
    (h : List.Forall₂ Event.Respelled events others) :
    events.any Event.beginsPage = others.any Event.beginsPage := by
  induction h with
  | nil => rfl
  | cons hevent _ ih => rw [List.any_cons, List.any_cons, hevent.beginsPage_eq, ih]

namespace Interpreter

variable {setting : Setting} {i j : Interpreter}

/-! ### Diagnostics -/

/-- **The diagnostics after events** are the errors of those since the latest
beginning of a page, after what is left of the earlier ones. -/
theorem diagnostics_afterEach (setting : Setting) (events : List Event) (i : Interpreter) :
    (afterEach setting events i).diagnostics
      = standing i.diagnostics events ++ (rejections (sincePage events)).toArray := by
  -- by the last event, which adds to them or drops them all
  induction events using List.reverseRecOn with
  | nil => exact (Array.append_empty).symm
  | append_singleton events event ih =>
    rw [afterEach_snoc]
    rcases hpage : event.beginsPage with - | -
    · rw [answer_of_not_beginsPage hpage, standing_snoc _ _ hpage, sincePage_snoc _ hpage,
        rejections_snoc, ← List.append_toArray, ← Array.append_assoc, ← ih]
      rcases hstack : event.stackAfter? _ with - | stack
      · rw [Event.rejection?_of_stackAfter? hstack]
        exact (Array.append_empty).symm
      · rfl
    · obtain ⟨page, hop⟩ := Event.exists_page hpage
      rw [answer_of_beginPage hop, standing_snoc_of_beginsPage _ _ hpage,
        sincePage_snoc_of_beginsPage _ hpage]
      rfl

/-! ### Side by side -/

/-- The interpreters differ in their diagnostics at most. -/
structure SameRun (i j : Interpreter) : Prop extends SamePlace i j where
  runs : i.runs = j.runs

theorem SameRun.step (h : SameRun i j) (setting : Setting) {event other : Event}
    (hevent : event.Respelled other) :
    (answer setting event i).1 = (answer setting other j).1
      ∧ SameRun (answer setting event i).2 (answer setting other j).2 := by
  rcases hpage : event.beginsPage with - | -
  · have hpage' : other.beginsPage = false := hevent.beginsPage_eq ▸ hpage
    rw [answer_of_not_beginsPage hpage, answer_of_not_beginsPage hpage', ← h.stack, ← h.page,
      ← h.nextIndex, ← h.runs, ← hevent.stackAfter?_eq, ← hevent.kept_eq]
    rcases event.stackAfter? i.stack with - | stack
    · exact ⟨rfl, ⟨rfl, rfl, rfl⟩, rfl⟩
    · exact ⟨rfl, ⟨rfl, rfl, rfl⟩, rfl⟩
  · obtain ⟨page, hop⟩ := Event.exists_page hpage
    have hop' : Operator.ofEvent? other = .ok (some (.beginPage page)) := by
      rcases hevent.ofEvent? with ⟨found, hfound, hother⟩ | ⟨mismatch, hmismatch, -⟩
      · rw [hother, ← hfound, hop]
      · cases hop.symm.trans hmismatch
    rw [answer_of_beginPage hop, answer_of_beginPage hop']
    exact ⟨rfl, ⟨rfl, rfl, rfl⟩, rfl⟩

theorem SameRun.afterEach (setting : Setting) {events others : List Event}
    (hevents : List.Forall₂ Event.Respelled events others) :
    ∀ {i j : Interpreter}, SameRun i j →
      (history setting events i).map Call.result = (history setting others j).map Call.result
        ∧ SameRun (afterEach setting events i) (afterEach setting others j) := by
  induction hevents with
  | nil =>
    intro i j h
    exact ⟨rfl, h⟩
  | cons hevent _ ih =>
    intro i j h
    obtain ⟨hanswer, hnext⟩ := h.step setting hevent
    obtain ⟨hrest, hlast⟩ := ih hnext
    exact ⟨congrArg₂ List.cons hanswer hrest, hlast⟩

/-- **Spellings are interchangeable.**  Whatever events are spelled in the other
way, each returns the same, be it runs or an error, and the interpreter is the
same afterwards but for the diagnostics.  These are the same ones as well, only
that each of those that were added names its event as it is spelled. -/
theorem afterEach_respelled (setting : Setting) (i : Interpreter) {events others : List Event}
    (hevents : List.Forall₂ Event.Respelled events others) :
    let first := afterEach setting events i
    let second := afterEach setting others i
    (history setting events i).map Call.result = (history setting others i).map Call.result
      ∧ first.stack = second.stack ∧ first.page = second.page
      ∧ first.nextIndex = second.nextIndex ∧ first.runs = second.runs
      ∧ first.diagnostics
        = standing i.diagnostics events ++ (rejections (sincePage events)).toArray
      ∧ second.diagnostics
        = standing i.diagnostics events ++ (rejections (sincePage others)).toArray
      ∧ List.Forall₂ Event.SameRejection (sincePage events) (sincePage others) := by
  intro first second
  obtain ⟨hresults, hsame⟩ := SameRun.afterEach setting hevents (i := i) ⟨⟨rfl, rfl, rfl⟩, rfl⟩
  have hstanding : standing i.diagnostics others = standing i.diagnostics events := by
    rw [standing, standing, any_beginsPage_eq hevents]
  refine ⟨hresults, hsame.stack, hsame.page, hsame.nextIndex, hsame.runs,
    diagnostics_afterEach setting events i, ?_, ?_⟩
  · rw [← hstanding]
    exact diagnostics_afterEach setting others i
  · exact (forall₂_sincePage hevents).imp fun _ _ h => h.sameRejection

/-- Some of these events are spelled in the other way, an `ET` that does not fit
among them, whose error shows it. -/
theorem afterEach_respelled_with_rejected_event :
    let events : List Event :=
      [⟨"begin_page", []⟩, ⟨"BT", []⟩, ⟨"ET", [.bool true]⟩, ⟨"re", []⟩, ⟨"show_text", [.text "a"]⟩]
    let others : List Event :=
      [⟨"begin_page", []⟩, ⟨"BT", []⟩, ⟨"end_text_object", [.bool true]⟩, ⟨"re", []⟩,
        ⟨"Tj", [.text "a"]⟩]
    let first := afterEach {} events {}
    let second := afterEach {} others {}
    List.Forall₂ Event.Respelled events others ∧ first.stack = second.stack
      ∧ first.runs = second.runs ∧ first.diagnostics = #[.malformed "ET" (.count 0 1)]
      ∧ second.diagnostics = #[.malformed "end_text_object" (.count 0 1)] := by
  intro events others first second
  have hevents : List.Forall₂ Event.Respelled events others :=
    .cons ⟨rfl, .inl rfl⟩ (.cons ⟨rfl, .inl rfl⟩
      (.cons ⟨rfl, .inr ⟨.endText, by decide, by decide⟩⟩ (.cons ⟨rfl, .inl rfl⟩
        (.cons ⟨rfl, .inr ⟨.showText, by decide, by decide⟩⟩ .nil))))
  obtain ⟨-, hstack, -, -, hruns, hfirst, hsecond, -⟩ := afterEach_respelled {} {} hevents
  refine ⟨hevents, hstack, hruns, hfirst.trans ?_, hsecond.trans ?_⟩
  · decide +kernel
  · decide +kernel

end Interpreter

end PageText
