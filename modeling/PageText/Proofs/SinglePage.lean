/-
PageText/Proofs/SinglePage.lean

A single page read in two ways.  `extractRuns` gives all the runs that the calls
returned, one after another; `interpretPages` gives what the interpreter has kept
of them, and that is what was returned since the latest beginning of a page.  A
content may spell such a beginning itself.  The runs before it are then missing
from the page, although the page counts as complete.

Both ways agree on the error that ends a page, and without a beginning of a page
in the content they agree on the runs.

Main result: `interpretPages_singleton`.
-/
import PageText.Proofs.History
import PageText.Proofs.Pages

namespace PageText

/-! ### Calls -/

/-- The calls of the page are the last ones. -/
theorem currentPage_suffix (calls : List Call) : currentPage calls <:+ calls := by
  induction calls with
  | nil => exact List.suffix_refl []
  | cons call rest ih =>
    rw [currentPage]
    split
    · exact ih.trans (List.suffix_cons call rest)
    · exact List.suffix_refl _

/-- Where only the first call may begin a page, all calls belong to it. -/
theorem currentPage_eq_self {call : Call} {rest : List Call}
    (h : ∀ later ∈ rest, later.event.beginsPage = false) :
    currentPage (call :: rest) = call :: rest := by
  have hnone : ¬(rest.any fun later => later.event.beginsPage) = true := by
    rw [List.any_eq_true]
    rintro ⟨later, hmem, hbegins⟩
    rw [h later hmem] at hbegins
    cases hbegins
  rw [currentPage, if_neg hnone]

namespace Interpreter

variable (setting : Setting)

/-- A call stands for an event of the list. -/
theorem event_mem_of_history (events : List Event) :
    ∀ {i : Interpreter} {call : Call}, call ∈ history setting events i → call.event ∈ events := by
  induction events with
  | nil =>
    intro i call h
    cases h
  | cons event rest ih =>
    intro i call h
    rw [history, List.mem_cons] at h
    rcases h with rfl | h
    · exact List.mem_cons_self
    · exact List.mem_cons_of_mem _ (ih h)

variable {setting}

/-- A list that is executed to its end is processed event by event, and returns
the runs of all calls. -/
theorem outcome_of_ok (events : List Event) :
    ∀ {i : Interpreter} {runs : Array (Run Float)}, (outcome setting events i).1 = .ok runs →
      (outcome setting events i).2 = afterEach setting events i
        ∧ runs.toList = (history setting events i).flatMap Call.runs := by
  induction events with
  | nil =>
    intro i runs h
    obtain rfl : #[] = runs := Except.ok.inj h
    exact ⟨rfl, rfl⟩
  | cons event rest ih =>
    intro i runs h
    rcases hanswer : answer setting event i with ⟨error | first, i'⟩
    · rw [outcome_cons_of_error hanswer] at h
      cases h
    · rw [outcome_cons_of_ok hanswer] at h ⊢
      obtain ⟨others, hrest, rfl⟩ := map_eq_ok h
      -- the rest starts where this event has left the interpreter
      obtain ⟨hstate, hruns⟩ := ih hrest
      obtain ⟨hresult, rfl⟩ := Prod.mk.inj hanswer
      refine ⟨hstate, ?_⟩
      rw [Array.toList_append, hruns, history, hresult, List.flatMap_cons]
      rfl

end Interpreter

/-! ### One page -/

/-- A page alone is interpreted by an interpreter of its own. -/
theorem interpretPages_eq_freshPage (setting : Setting) (bytes : List UInt8) :
    interpretPages setting [bytes] = [freshPage setting 0 bytes] := by
  rw [interpretPages, interpretPagesFrom_eq]
  rfl

/-- The error that ends a page alone is the one that is returned for it. -/
theorem aborted_freshPage (setting : Setting) (bytes : List UInt8) :
    (freshPage setting 0 bytes).aborted
      = match extractRuns setting bytes with
        | .ok _ => none
        | .error error => some error := rfl

/-- All calls belong to the page when its content begins no other one. -/
theorem currentPage_of_content (setting : Setting) {bytes : List UInt8}
    (h : ∀ event ∈ Content.events bytes, event.beginsPage = false) :
    currentPage (Interpreter.history setting (Content.pageEvents 0 bytes) {})
      = Interpreter.history setting (Content.pageEvents 0 bytes) {} := by
  refine currentPage_eq_self ?_
  intro later hlater
  -- what comes after the first event is the content and the end of the page
  have hmem := Interpreter.event_mem_of_history setting _ hlater
  rcases List.mem_append.mp hmem with hcontent | hend
  · exact h _ hcontent
  · rw [List.mem_singleton.mp hend]
    decide

/-- **A page alone is ended by the same error in both ways.**  If none ends it,
one way gives the runs of all calls and the other those since the latest
beginning of a page, which are all of them exactly when the calls before that
returned no runs, and certainly when the content begins no page. -/
theorem interpretPages_singleton (setting : Setting) (bytes : List UInt8) :
    let calls := Interpreter.history setting (Content.pageEvents 0 bytes) {}
    ∃ page, interpretPages setting [bytes] = [page]
      ∧ match extractRuns setting bytes with
        | .error error => page.aborted = some error
        | .ok runs => page.aborted = none
          ∧ (∃ earlier, earlier ++ currentPage calls = calls
            ∧ runs.toList = earlier.flatMap Call.runs ++ page.runs.toList
            ∧ (page.runs = runs ↔ ∀ call ∈ earlier, call.runs = []))
          ∧ ((∀ event ∈ Content.events bytes, event.beginsPage = false) → page.runs = runs) := by
  intro calls
  refine ⟨freshPage setting 0 bytes, interpretPages_eq_freshPage setting bytes, ?_⟩
  rcases hresult : extractRuns setting bytes with error | runs
  · rw [aborted_freshPage, hresult]
  · obtain ⟨hstate, hruns⟩ := Interpreter.outcome_of_ok _ hresult
    have hpage : (freshPage setting 0 bytes).runs.toList = (currentPage calls).flatMap Call.runs :=
      (congrArg (fun i => i.runs.toList) hstate).trans
        (Interpreter.recorded_history setting (Content.pageEvents 0 bytes)).runs
    obtain ⟨earlier, hsplit⟩ := currentPage_suffix calls
    have hall : runs.toList
        = earlier.flatMap Call.runs ++ (freshPage setting 0 bytes).runs.toList := by
      rw [hpage, ← List.flatMap_append, hsplit]
      exact hruns
    refine ⟨?_, ⟨earlier, hsplit, hall, ?_⟩, ?_⟩
    · rw [aborted_freshPage, hresult]
    · rw [← Array.toList_inj, hall, List.self_eq_append_left, List.flatMap_eq_nil_iff]
    · intro hcontent
      have hwhole : currentPage calls = calls := currentPage_of_content setting hcontent
      rw [← Array.toList_inj, hpage, hwhole]
      exact hruns.symm

/-- The content `(a) Tj begin_page (b) Tj`: the page is complete, and `a` is
missing from it. -/
theorem interpretPages_of_page_within_page :
    let bytes : List UInt8 :=
      [0x28, 0x61, 0x29, 0x20, 0x54, 0x6A, 0x20, 0x62, 0x65, 0x67, 0x69, 0x6E, 0x5F, 0x70, 0x61,
        0x67, 0x65, 0x20, 0x28, 0x62, 0x29, 0x20, 0x54, 0x6A]
    ∃ runs page, extractRuns {} bytes = .ok runs ∧ interpretPages {} [bytes] = [page]
      ∧ page.isComplete = true ∧ runs.toList.map Run.content = ["a", "b"]
      ∧ page.runs.toList.map Run.content = ["b"] := by
  intro bytes
  have hparsed : Content.events bytes
      = [⟨"Tj", [.text "a"]⟩, ⟨"begin_page", []⟩, ⟨"Tj", [.text "b"]⟩] := by
    cbv
  have hextract : (extractRuns {} bytes).toOption.map (fun runs => runs.toList.map Run.content)
      = some ["a", "b"] := by
    rw [extractRuns, Content.pageEvents, hparsed]
    decide +kernel
  have hpage : (freshPage {} 0 bytes).isComplete = true
      ∧ (freshPage {} 0 bytes).runs.toList.map Run.content = ["b"] := by
    rw [freshPage, Content.pageEvents, hparsed]
    decide +kernel
  rcases hresult : extractRuns {} bytes with error | runs
  · rw [hresult] at hextract
    cases hextract
  · rw [hresult] at hextract
    exact ⟨runs, freshPage {} 0 bytes, rfl, interpretPages_eq_freshPage {} bytes, hpage.1,
      Option.some.inj hextract, hpage.2⟩

end PageText
