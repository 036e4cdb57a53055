/-
PageText/Proofs/Survivors.lean

Events that are passed over leave no trace but counts and diagnostics.  A list
of events and the list of its survivors, those that stand for an operator, are
executed side by side.  The two interpreters agree on the stack, the page and
the runs; `Abreast` says this together with how far their counts and their
diagnostics are apart.

An event that survives moves both interpreters (`Abreast.survivor`), one that
is passed over only the first (`Abreast.passedOver`), and a missing state stops
both (`Abreast.failing`).  The main result is `execute_survivors`.
-/
import Mathlib.Data.List.DropRight
import PageText.Proofs.Processing

namespace PageText

/-! ### Survivors -/

namespace Event

/-- Whether the event stands for an operator. -/
def survives (event : Event) : Bool :=
  match Operator.ofEvent? event with
  | .ok (some _) => true
  | _ => false

/-- The error of an event whose operands do not fit. -/
def rejection? (event : Event) : Option Error :=
  match Operator.ofEvent? event with
  | .error error => some error
  | _ => none

/-- Whether the event begins a page, with operands that fit. -/
def beginsPage (event : Event) : Bool :=
  match Operator.ofEvent? event with
  | .ok (some (.beginPage _)) => true
  | _ => false

variable {event : Event}

theorem exists_operator (h : event.survives = true) :
    ∃ op, Operator.ofEvent? event = .ok (some op) := by
  rw [survives] at h
  split at h
  · next op hop => exact ⟨op, hop⟩
  · cases h

theorem exists_page (h : event.beginsPage = true) :
    ∃ page, Operator.ofEvent? event = .ok (some (.beginPage page)) := by
  rw [beginsPage] at h
  split at h
  · next page hop => exact ⟨page, hop⟩
  · cases h

theorem survives_of_operator {op : Operator} (h : Operator.ofEvent? event = .ok (some op)) :
    event.survives = true := by
  rw [survives, h]

theorem rejection?_of_survives (h : event.survives = true) : event.rejection? = none := by
  obtain ⟨op, hop⟩ := exists_operator h
  rw [rejection?, hop]

end Event

/-- The events that stand for an operator. -/
def survivors (events : List Event) : List Event := events.filter Event.survives

/-- How many events are passed over. -/
def skipped (events : List Event) : Nat := events.countP fun event => !event.survives

/-- The errors of the events whose operands do not fit, in order. -/
def rejections (events : List Event) : List Error := events.filterMap Event.rejection?

/-- The events after the latest one that begins a page, or all of them. -/
def sincePage (events : List Event) : List Event := events.rtakeWhile fun event => !event.beginsPage

/-- What is left of diagnostics after events: nothing once a page was begun. -/
def standing (diagnostics : Array Error) (events : List Event) : Array Error :=
  if events.any Event.beginsPage then #[] else diagnostics

section Snoc

variable {event : Event} (events : List Event)

theorem survivors_snoc_of_survives (h : event.survives = true) :
    survivors (events ++ [event]) = survivors events ++ [event] := by
  rw [survivors, List.filter_append, List.filter_cons_of_pos h, List.filter_nil]
  rfl

theorem survivors_snoc_of_skipped (h : event.survives = false) :
    survivors (events ++ [event]) = survivors events := by
  rw [survivors, List.filter_append, List.filter_cons_of_neg (by rw [h]; decide), List.filter_nil,
    List.append_nil]
  rfl

theorem skipped_snoc_of_survives (h : event.survives = true) :
    skipped (events ++ [event]) = skipped events := by
  rw [skipped, List.countP_append, List.countP_singleton, h]
  rfl

theorem skipped_snoc_of_skipped (h : event.survives = false) :
    skipped (events ++ [event]) = skipped events + 1 := by
  rw [skipped, List.countP_append, List.countP_singleton, h]
  rfl

theorem rejections_snoc (event : Event) :
    rejections (events ++ [event]) = rejections events ++ event.rejection?.toList := by
  rw [rejections, List.filterMap_append]
  rcases h : event.rejection? with - | error
  · rw [List.filterMap_cons_none h]
    rfl
  · rw [List.filterMap_cons_some h]
    rfl

theorem sincePage_snoc_of_beginsPage (h : event.beginsPage = true) :
    sincePage (events ++ [event]) = [] :=
  List.rtakeWhile_concat_neg _ _ _ (by rw [h]; decide)

theorem sincePage_snoc (h : event.beginsPage = false) :
    sincePage (events ++ [event]) = sincePage events ++ [event] :=
  List.rtakeWhile_concat_pos _ _ _ (by rw [h]; decide)

theorem standing_snoc_of_beginsPage (diagnostics : Array Error) (h : event.beginsPage = true) :
    standing diagnostics (events ++ [event]) = #[] := by
  rw [standing, List.any_append, List.any_cons, h, Bool.true_or, Bool.or_true, if_pos rfl]

theorem standing_snoc (diagnostics : Array Error) (h : event.beginsPage = false) :
    standing diagnostics (events ++ [event]) = standing diagnostics events := by
  rw [standing, List.any_append, List.any_cons, h, List.any_nil, Bool.or_false, Bool.or_false,
    standing]

end Snoc

namespace Interpreter

/-! ### Side by side -/

/-- How an interpreter that processed `events` and one that processed only their
survivors stand to each other, both from `i`. -/
structure Abreast (i : Interpreter) (events : List Event) (full bare : Interpreter) : Prop where
  stack : full.stack = bare.stack
  page : full.page = bare.page
  runs : full.runs = bare.runs
  /-- Only the events that were passed over on this page count apart. -/
  nextIndex : full.nextIndex = bare.nextIndex + skipped (sincePage events)
  /-- Survivors note nothing down. -/
  bareDiagnostics : bare.diagnostics = standing i.diagnostics events
  /-- Only the events whose operands did not fit on this page are noted down. -/
  fullDiagnostics : full.diagnostics
    = standing i.diagnostics events ++ (rejections (sincePage events)).toArray

theorem Abreast.nil (i : Interpreter) : Abreast i [] i i where
  stack := rfl
  page := rfl
  runs := rfl
  nextIndex := rfl
  bareDiagnostics := rfl
  fullDiagnostics := Array.append_empty.symm

variable {setting : Setting} {i full bare : Interpreter} {events : List Event} {event : Event}

/-- An event that is passed over moves only the interpreter that meets it. -/
theorem Abreast.passedOver (setting : Setting) (h : Abreast i events full bare)
    (hskip : event.survives = false) :
    ∃ full', answer setting event full = (.ok #[], full')
      ∧ Abreast i (events ++ [event]) full' bare := by
  have hpage : event.beginsPage = false := by
    rw [← Bool.not_eq_true]
    intro hbegins
    obtain ⟨page, hop⟩ := Event.exists_page hbegins
    rw [Event.survives_of_operator hop] at hskip
    cases hskip
  have hindex : full.nextIndex + 1
      = bare.nextIndex + skipped (sincePage (events ++ [event])) := by
    rw [sincePage_snoc _ hpage, skipped_snoc_of_skipped _ hskip, h.nextIndex, Nat.add_assoc]
  have hbare : bare.diagnostics = standing i.diagnostics (events ++ [event]) := by
    rw [standing_snoc _ _ hpage, h.bareDiagnostics]
  have hfull : full.diagnostics ++ event.rejection?.toList.toArray
      = standing i.diagnostics (events ++ [event])
        ++ (rejections (sincePage (events ++ [event]))).toArray := by
    rw [standing_snoc _ _ hpage, sincePage_snoc _ hpage, rejections_snoc, h.fullDiagnostics,
      Array.append_assoc, List.append_toArray (rejections _)]
  rcases hop : Operator.ofEvent? event with rejection | - | op
  · refine ⟨_, answer_of_rejected hop, h.stack, h.page, h.runs, hindex, hbare, ?_⟩
    rw [← hfull, Event.rejection?, hop]
    exact Array.push_eq_append
  · refine ⟨_, answer_of_unknown hop, h.stack, h.page, h.runs, hindex, hbare, ?_⟩
    rw [← hfull, Event.rejection?, hop]
    exact Array.append_empty.symm
  · rw [Event.survives_of_operator hop] at hskip
    cases hskip

/-- An operator other than the beginning of a page adds its runs to those of the
page and leaves the diagnostics alone. -/
theorem answer_within_page {op : Operator} (hop : Operator.ofEvent? event = .ok (some op))
    (hpage : event.beginsPage = false) :
    answer setting event i
      = match op.stackAfter? i.stack with
        | none => (.error (.underflow i.page i.nextIndex), { i with nextIndex := i.nextIndex + 1 })
        | some stack => (.ok (setting.kept op i.stack),
            { i with
              stack := stack, nextIndex := i.nextIndex + 1,
              runs := i.runs ++ setting.kept op i.stack }) := by
  rw [Event.beginsPage, hop] at hpage
  rw [answer_of_operator hop]
  cases op with
  | beginPage page => cases hpage
  | _ => rfl

/-- A survivor moves both interpreters alike. -/
theorem Abreast.survivor (h : Abreast i events full bare) (hsurvives : event.survives = true)
    {runs : Array (Run Float)} {full' : Interpreter}
    (hfull : answer setting event full = (.ok runs, full')) :
    ∃ bare', answer setting event bare = (.ok runs, bare')
      ∧ Abreast i (events ++ [event]) full' bare' := by
  obtain ⟨op, hop⟩ := Event.exists_operator hsurvives
  rcases hpage : event.beginsPage with - | -
  · rw [answer_within_page hop hpage] at hfull ⊢
    rw [h.stack] at hfull
    rcases hstack : op.stackAfter? bare.stack with - | stack
    · rw [hstack] at hfull
      cases (Prod.mk.inj hfull).1
    · rw [hstack] at hfull
      obtain ⟨hruns, rfl⟩ := Prod.mk.inj hfull
      obtain rfl : setting.kept op bare.stack = runs := Except.ok.inj hruns
      refine ⟨_, rfl, rfl, h.page, congrArg (· ++ _) h.runs, ?_, ?_, ?_⟩
      · rw [sincePage_snoc _ hpage, skipped_snoc_of_survives _ hsurvives, h.nextIndex]
        exact Nat.add_right_comm _ _ _
      · rw [standing_snoc _ _ hpage, h.bareDiagnostics]
      · rw [standing_snoc _ _ hpage, sincePage_snoc _ hpage, rejections_snoc,
          Event.rejection?_of_survives hsurvives, h.fullDiagnostics, Option.toList_none,
          List.append_nil]
  · -- the page begins anew for both, wherever they were
    obtain ⟨page, hbegin⟩ := Event.exists_page hpage
    rw [answer_of_beginPage hbegin] at hfull ⊢
    obtain ⟨hruns, rfl⟩ := Prod.mk.inj hfull
    refine ⟨_, congrArg (·, _) hruns, rfl, rfl, rfl, ?_, ?_, ?_⟩
    · rw [sincePage_snoc_of_beginsPage _ hpage]
      rfl
    · rw [standing_snoc_of_beginsPage _ _ hpage]
    · rw [standing_snoc_of_beginsPage _ _ hpage, sincePage_snoc_of_beginsPage _ hpage]
      rfl

/-- A missing state stops both interpreters, at numbers that are as far apart
as their counts. -/
theorem Abreast.failing (h : Abreast i events full bare) {error : Error} {full' : Interpreter}
    (hfull : answer setting event full = (.error error, full')) :
    event.survives = true
      ∧ error = .underflow bare.page (bare.nextIndex + skipped (sincePage events))
      ∧ ∃ bare', answer setting event bare = (.error (.underflow bare.page bare.nextIndex), bare')
        ∧ Abreast i events full' bare' := by
  obtain ⟨herror, rfl⟩ := answer_error hfull
  rw [h.page, h.nextIndex] at herror
  rcases hop : Operator.ofEvent? event with rejection | - | op
  · rw [answer_of_rejected hop] at hfull
    cases (Prod.mk.inj hfull).1
  · rw [answer_of_unknown hop] at hfull
    cases (Prod.mk.inj hfull).1
  · have hpage : event.beginsPage = false := by
      rw [← Bool.not_eq_true]
      intro hbegins
      obtain ⟨page, hbegin⟩ := Event.exists_page hbegins
      rw [answer_of_beginPage hbegin] at hfull
      cases (Prod.mk.inj hfull).1
    rw [answer_within_page hop hpage, h.stack] at hfull
    rcases hstack : op.stackAfter? bare.stack with - | stack
    · refine ⟨?_, herror, { bare with nextIndex := bare.nextIndex + 1 }, ?_, ?_⟩
      · exact Event.survives_of_operator hop
      · rw [answer_within_page hop hpage, hstack]
      · refine ⟨h.stack, h.page, h.runs, ?_, h.bareDiagnostics, h.fullDiagnostics⟩
        rw [h.nextIndex]
        exact Nat.add_right_comm _ _ _
    · rw [hstack] at hfull
      cases (Prod.mk.inj hfull).1

/-! ### Events in a row -/

/-- The survivors of events that are processed are processed too, and return the
same runs. -/
theorem abreast_of_processed (events : List Event) :
    ∀ {runs : Array (Run Float)}, (outcome setting events i).1 = .ok runs →
      (outcome setting (survivors events) i).1 = .ok runs
        ∧ Abreast i events (outcome setting events i).2
          (outcome setting (survivors events) i).2 := by
  -- by the last event, so that what is left to say is about events since the page began
  induction events using List.reverseRecOn with
  | nil =>
    intro runs h
    exact ⟨h, .nil i⟩
  | append_singleton events event ih =>
    intro runs h
    rcases hfirst : outcome setting events i with ⟨error | before, full⟩
    · rw [outcome_append_of_error hfirst] at h
      cases h
    obtain ⟨hbare, habreast⟩ := ih (congrArg Prod.fst hfirst)
    rw [hfirst] at habreast
    rw [outcome_append_of_ok hfirst, outcome_singleton] at h ⊢
    obtain ⟨last, hlast, rfl⟩ := map_eq_ok h
    rcases hsurvives : event.survives with - | -
    · obtain ⟨full', hanswer, hnext⟩ := habreast.passedOver setting hsurvives
      rw [hanswer] at hlast ⊢
      obtain rfl : #[] = last := Except.ok.inj hlast
      rw [survivors_snoc_of_skipped _ hsurvives, Array.append_empty]
      exact ⟨hbare, hnext⟩
    · obtain ⟨bare', hanswer, hnext⟩ := habreast.survivor hsurvives (Prod.ext hlast rfl)
      rw [survivors_snoc_of_survives _ hsurvives, outcome_append_of_ok (Prod.ext hbare rfl),
        outcome_singleton, hanswer]
      exact ⟨rfl, hnext⟩

/-- **Events that are passed over leave no trace** but counts and diagnostics.
Both executions come to their ends and return the same runs, or the same
survivor ends the page for both. -/
theorem execute_survivors (setting : Setting) (events : List Event) (i : Interpreter) :
    let full := execute setting events i
    let bare := execute setting (survivors events) i
    ∃ processed, Abreast i processed full.2 bare.2 ∧ match full.1.result with
      | .ok runs => processed = events ∧ bare.1.result = .ok runs
      | .error error => ∃ failing page index, failing.survives = true
        ∧ error = .underflow page (index + skipped (sincePage processed))
        ∧ bare.1.result = .error (.underflow page index)
        ∧ StopsAt setting events i processed failing error
        ∧ StopsAt setting (survivors events) i (survivors processed) failing
          (.underflow page index) := by
  intro full bare
  rcases hresult : full.1.result with error | runs
  · obtain ⟨processed, failing, hstops, hstate, -⟩ := stopsAt_of_error events hresult
    obtain ⟨runs, hprocessed⟩ := hstops.processed
    obtain ⟨hbare, habreast⟩ := abreast_of_processed processed hprocessed
    obtain ⟨hsurvives, herror, bare', hanswer, hnext⟩ :=
      habreast.failing (Prod.ext hstops.fails rfl)
    obtain ⟨rest, hsplit⟩ := hstops.split
    have hstopsBare : StopsAt setting (survivors events) i (survivors processed) failing
        (.underflow (outcome setting (survivors processed) i).2.page
          (outcome setting (survivors processed) i).2.nextIndex) := by
      refine ⟨⟨survivors rest, ?_⟩, ⟨runs, hbare⟩, congrArg Prod.fst hanswer⟩
      rw [hsplit, survivors, List.filter_append, List.filter_cons_of_pos hsurvives]
      rfl
    -- neither execution goes on after the failing event
    have hbareEq := hstopsBare.outcome_eq
    refine ⟨processed, ?_, failing, _, _, hsurvives, herror, congrArg Prod.fst hbareEq, hstops,
      hstopsBare⟩
    have hbareState : bare.2 = bare' :=
      (congrArg Prod.snd hbareEq).trans (congrArg Prod.snd hanswer)
    rw [hbareState]
    exact hstate ▸ hnext
  · obtain ⟨hbare, habreast⟩ := abreast_of_processed events hresult
    exact ⟨events, habreast, rfl, hbare⟩

end Interpreter

end PageText
