/-
PageText/Proofs/History.lean

What an interpreter remembers of the events it was given.  Events are processed
one after another, those after an error too (`afterEach`), and each of them is
kept with what it returned (`calls`).  The page, the count of events, the runs,
the diagnostics and the depth of the stack are then what the calls since the
latest beginning of a page say (`Recorded`): the beginning of a page drops all
that was there (`Recorded.begin`), and every other event adds its own part
(`Recorded.add`).

Main result: `recorded_afterEach`, for every list of events and a new
interpreter.
-/
import PageText.Proofs.TextObjects

namespace PageText

/-! ### Calls -/

/-- An event that was processed and what was returned for it. -/
structure Call where
  event : Event
  result : Except Error (Array (Run Float))

namespace Call

/-- The runs that were returned; none for an error. -/
def runs (call : Call) : List (Run Float) :=
  match call.result with
  | .ok runs => runs.toList
  | .error _ => []

/-- Whether an error was returned. -/
def failed (call : Call) : Bool :=
  match call.result with
  | .ok _ => false
  | .error _ => true

end Call

/-- The page that an event begins, which may have no number. -/
def Event.page? (event : Event) : Option (Option UInt32) :=
  match Operator.ofEvent? event with
  | .ok (some (.beginPage page)) => some page
  | _ => none

/-- The number of the page that was begun latest; none if it had none or no page
was begun. -/
def latestPage (calls : List Call) : Option UInt32 :=
  (calls.reverse.findSome? fun call => call.event.page?).join

/-- The calls from the latest one that began a page; all of them if none did. -/
def currentPage : List Call → List Call
  | [] => []
  | call :: rest =>
    if rest.any fun later => later.event.beginsPage then currentPage rest else call :: rest

/-- The events that did not fail. -/
def carriedOut (calls : List Call) : List Event :=
  (calls.filter fun call => !call.failed).map Call.event

/-- Whether a page was begun and has not ended since. -/
def isPageOpen (calls : List Call) : Bool :=
  (calls.any fun call => call.event.beginsPage)
    && !(carriedOut (currentPage calls)).any Event.endsPage

section Snoc

variable {call : Call} (calls : List Call)

theorem latestPage_snoc_of_page {page : Option UInt32} (h : call.event.page? = some page) :
    latestPage (calls ++ [call]) = page := by
  rw [latestPage, List.reverse_append, List.reverse_singleton, List.singleton_append,
    List.findSome?_cons, h]
  rfl

theorem latestPage_snoc (h : call.event.page? = none) :
    latestPage (calls ++ [call]) = latestPage calls := by
  rw [latestPage, List.reverse_append, List.reverse_singleton, List.singleton_append,
    List.findSome?_cons, h, latestPage]

theorem currentPage_snoc_of_beginsPage (h : call.event.beginsPage = true) :
    currentPage (calls ++ [call]) = [call] := by
  induction calls with
  | nil => rfl
  | cons first rest ih =>
    rw [List.cons_append, currentPage, List.any_append, List.any_cons, h, Bool.true_or,
      Bool.or_true, if_pos rfl, ih]

theorem currentPage_snoc (h : call.event.beginsPage = false) :
    currentPage (calls ++ [call]) = currentPage calls ++ [call] := by
  induction calls with
  | nil => rfl
  | cons first rest ih =>
    rw [List.cons_append, currentPage, currentPage, List.any_append, List.any_cons, h, List.any_nil,
      Bool.or_false, Bool.or_false, ih]
    split
    · rfl
    · rfl

theorem carriedOut_snoc_of_failed (h : call.failed = true) :
    carriedOut (calls ++ [call]) = carriedOut calls := by
  rw [carriedOut, List.filter_append, List.filter_cons_of_neg (by rw [h]; decide), List.filter_nil,
    List.append_nil, carriedOut]

theorem carriedOut_snoc (h : call.failed = false) :
    carriedOut (calls ++ [call]) = carriedOut calls ++ [call.event] := by
  rw [carriedOut, List.filter_append, List.filter_cons_of_pos (by rw [h]; rfl), List.filter_nil,
    List.map_append, carriedOut]
  rfl

theorem isPageOpen_snoc_of_failed (hpage : call.event.beginsPage = false)
    (h : call.failed = true) : isPageOpen (calls ++ [call]) = isPageOpen calls := by
  rw [isPageOpen, List.any_append, List.any_cons, hpage, List.any_nil, Bool.or_false, Bool.or_false,
    currentPage_snoc _ hpage, carriedOut_snoc_of_failed _ h, isPageOpen]

theorem isPageOpen_snoc (hpage : call.event.beginsPage = false) (h : call.failed = false) :
    isPageOpen (calls ++ [call]) = (isPageOpen calls && !call.event.endsPage) := by
  rw [isPageOpen, List.any_append, List.any_cons, hpage, List.any_nil, Bool.or_false, Bool.or_false,
    currentPage_snoc _ hpage, carriedOut_snoc _ h, List.any_append, List.any_cons, List.any_nil,
    Bool.or_false, Bool.not_or, ← Bool.and_assoc, isPageOpen]

end Snoc

/-! ### Depths -/

namespace Event

variable {event : Event}

theorem page?_of_not_beginsPage (h : event.beginsPage = false) : event.page? = none := by
  rw [beginsPage] at h
  rw [page?]
  split
  · next page hop =>
    rw [hop] at h
    cases h
  · rfl

theorem rejection?_of_stackAfter? {stack : Stack Float} (h : event.stackAfter? stack = none) :
    event.rejection? = none := by
  rw [stackAfter?] at h
  split at h
  · next op hop => rw [rejection?, hop]
  · cases h

/-- Scopes are neither opened nor closed by an event that stands for no operator,
and the beginning of a page opens no text object. -/
theorem no_scope (h : ∀ op, Operator.ofEvent? event = .ok (some op) → ∃ page, op = .beginPage page) :
    event.beginsText = false ∧ event.endsText = false ∧ event.endsPage = false := by
  rw [← Bool.not_eq_true, ← Bool.not_eq_true, ← Bool.not_eq_true, beginsText_iff, endsText_iff,
    endsPage_iff]
  refine ⟨?_, ?_, ?_⟩
  · intro hop
    obtain ⟨page, hpage⟩ := h _ hop
    cases hpage
  · intro hop
    obtain ⟨page, hpage⟩ := h _ hop
    cases hpage
  · intro hop
    obtain ⟨page, hpage⟩ := h _ hop
    cases hpage

theorem eq_nil_of_stackAfter? (hpage : event.beginsPage = false) {stack : Stack Float}
    (h : event.stackAfter? [] = some stack) : stack = [] := by
  rw [stackAfter?_nil hpage] at h
  split at h
  · cases h
  · exact (Option.some.inj h).symm

/-- What an event that does not begin a page does to the depth, if it finds what
it needs. -/
theorem length_of_stackAfter? (hpage : event.beginsPage = false) {stack stack' : Stack Float}
    (h : event.stackAfter? stack = some stack') :
    if event.endsPage then stack' = []
    else stack'.length + ended [event] = stack.length + begun [event] := by
  rw [ended, begun, List.countP_singleton, List.countP_singleton]
  rcases stack with - | ⟨s, below⟩
  · rw [stackAfter?_nil hpage] at h
    split at h
    · cases h
    · next hsurvives =>
      obtain rfl : [] = stack' := Option.some.inj h
      obtain ⟨hbegin, hend, hendsPage⟩ :=
        no_scope fun op hop => absurd (survives_of_operator hop) hsurvives
      rw [hendsPage, hbegin, hend]
      rfl
  · rw [stackAfter?_cons hpage] at h
    split at h
    · next hendsPage =>
      rw [if_pos hendsPage]
      exact (Option.some.inj h).symm
    next hendsPage =>
    rw [if_neg hendsPage]
    split at h
    · next hbegin =>
      obtain rfl := Option.some.inj h
      rw [if_pos hbegin, endsText_of_beginsText hbegin]
      rfl
    next hbegin =>
    rw [if_neg hbegin]
    split at h
    · next hend =>
      rw [if_pos hend]
      split at h
      · cases h
      · obtain rfl := Option.some.inj h
        rfl
    · next hend =>
      obtain rfl := Option.some.inj h
      rw [if_neg hend]
      rfl

end Event

namespace Interpreter

variable (setting : Setting)

/-- The interpreter after events, each processed whatever came of those before
it. -/
def afterEach (events : List Event) (i : Interpreter) : Interpreter :=
  events.foldl (fun i event => (process setting event i).2) i

/-- The calls that process events one after another. -/
def history : List Event → Interpreter → List Call
  | [], _ => []
  | event :: rest, i =>
    ⟨event, (process setting event i).1.result⟩ :: history rest (process setting event i).2

variable {setting} {i : Interpreter} {event : Event}

theorem afterEach_snoc (events : List Event) :
    afterEach setting (events ++ [event]) i
      = (answer setting event (afterEach setting events i)).2 := by
  rw [afterEach, List.foldl_append]
  rfl

theorem history_snoc (events : List Event) :
    ∀ i, history setting (events ++ [event]) i
      = history setting events i
        ++ [⟨event, (answer setting event (afterEach setting events i)).1⟩] := by
  induction events with
  | nil =>
    intro i
    rfl
  | cons first rest ih =>
    intro i
    rw [List.cons_append, history, history, ih]
    rfl

/-! ### What is remembered -/

/-- The interpreter is what the calls so far say. -/
structure Recorded (calls : List Call) (i : Interpreter) : Prop where
  page : i.page = latestPage calls
  /-- Every event of the page is counted, whatever came of it. -/
  nextIndex : i.nextIndex = (currentPage calls).length
  runs : i.runs.toList = (currentPage calls).flatMap Call.runs
  diagnostics : i.diagnostics.toList = rejections ((currentPage calls).map Call.event)
  /-- There is a state for the page and one for each text object that is open. -/
  depth : if isPageOpen calls then
      i.stack.length + ended (carriedOut (currentPage calls))
        = 1 + begun (carriedOut (currentPage calls))
    else i.stack.length = 0

theorem Recorded.new : Recorded [] {} where
  page := rfl
  nextIndex := rfl
  runs := rfl
  diagnostics := rfl
  depth := rfl

variable {calls : List Call}

/-- The beginning of a page drops what was there. -/
theorem Recorded.begin (calls : List Call) {page : Option UInt32}
    (hop : Operator.ofEvent? event = .ok (some (.beginPage page))) :
    Recorded (calls ++ [⟨event, .ok #[]⟩]) ⟨Stack.page, page, 1, #[], #[]⟩ := by
  have hpage : event.beginsPage = true := by rw [Event.beginsPage, hop]
  have hcurrent : currentPage (calls ++ [⟨event, .ok #[]⟩]) = [⟨event, .ok #[]⟩] :=
    currentPage_snoc_of_beginsPage _ hpage
  have hcarried : carriedOut [⟨event, .ok #[]⟩] = [event] := rfl
  obtain ⟨hbegin, hend, hendsPage⟩ : event.beginsText = false ∧ event.endsText = false
      ∧ event.endsPage = false := Event.no_scope fun op hop' => by
    cases hop.symm.trans hop'
    exact ⟨page, rfl⟩
  refine ⟨?_, ?_, ?_, ?_, ?_⟩
  · have hnumber : event.page? = some page := by rw [Event.page?, hop]
    exact (latestPage_snoc_of_page _ hnumber).symm
  · rw [hcurrent]
    rfl
  · rw [hcurrent]
    rfl
  · rw [hcurrent, List.map_singleton, rejections, List.filterMap_cons_none]
    · rfl
    · exact Event.rejection?_of_survives (Event.survives_of_operator hop)
  · have hopen : isPageOpen (calls ++ [⟨event, .ok #[]⟩]) = true := by
      rw [isPageOpen, hcurrent, hcarried, List.any_append, List.any_cons, List.any_cons, hpage,
        hendsPage, Bool.true_or, Bool.or_true]
      rfl
    rw [if_pos hopen, hcurrent, hcarried, ended, begun, List.countP_singleton,
      List.countP_singleton, hbegin, hend]
    rfl

/-- An event that fails is counted. -/
theorem Recorded.fail (h : Recorded calls i) (hpage : event.beginsPage = false)
    (hstack : event.stackAfter? i.stack = none) (error : Error) :
    Recorded (calls ++ [⟨event, .error error⟩]) { i with nextIndex := i.nextIndex + 1 } := by
  have hcurrent : currentPage (calls ++ [⟨event, .error error⟩])
      = currentPage calls ++ [⟨event, .error error⟩] := currentPage_snoc _ hpage
  refine ⟨?_, ?_, ?_, ?_, ?_⟩
  · rw [latestPage_snoc _ (Event.page?_of_not_beginsPage hpage)]
    exact h.page
  · rw [hcurrent, List.length_append, ← h.nextIndex]
    rfl
  · rw [hcurrent, List.flatMap_append, ← h.runs]
    exact (List.append_nil _).symm
  · rw [hcurrent, List.map_append, List.map_singleton, rejections_snoc, ← h.diagnostics,
      Event.rejection?_of_stackAfter? hstack]
    exact (List.append_nil _).symm
  · rw [isPageOpen_snoc_of_failed _ hpage rfl, hcurrent, carriedOut_snoc_of_failed _ rfl]
    exact h.depth

/-- An event that does not fail adds its own part. -/
theorem Recorded.add (h : Recorded calls i) (hpage : event.beginsPage = false)
    {stack : Stack Float} (hstack : event.stackAfter? i.stack = some stack)
    (runs : Array (Run Float)) :
    Recorded (calls ++ [⟨event, .ok runs⟩])
      { i with
        stack := stack, nextIndex := i.nextIndex + 1, runs := i.runs ++ runs,
        diagnostics := i.diagnostics ++ event.rejection?.toList.toArray } := by
  have hcurrent : currentPage (calls ++ [⟨event, .ok runs⟩])
      = currentPage calls ++ [⟨event, .ok runs⟩] := currentPage_snoc _ hpage
  refine ⟨?_, ?_, ?_, ?_, ?_⟩
  · rw [latestPage_snoc _ (Event.page?_of_not_beginsPage hpage)]
    exact h.page
  · rw [hcurrent, List.length_append, ← h.nextIndex]
    rfl
  · rw [hcurrent, List.flatMap_append, ← h.runs, Array.toList_append, List.flatMap_singleton]
    rfl
  · rw [hcurrent, List.map_append, List.map_singleton, rejections_snoc, ← h.diagnostics,
      Array.toList_append]
  · have hdepth := h.depth
    have hlength := Event.length_of_stackAfter? hpage hstack
    rw [isPageOpen_snoc _ hpage rfl, hcurrent, carriedOut_snoc _ rfl, begun_append, ended_append]
    rcases hendsPage : event.endsPage with - | -
    · rw [hendsPage, if_neg Bool.false_ne_true] at hlength
      rw [Bool.not_false, Bool.and_true]
      rcases hopen : isPageOpen calls with - | -
      · -- no page is open, and without a state nothing can be opened
        rw [hopen, if_neg Bool.false_ne_true, List.length_eq_zero_iff] at hdepth
        rw [hdepth] at hstack
        rw [if_neg Bool.false_ne_true, Event.eq_nil_of_stackAfter? hpage hstack]
        rfl
      · rw [hopen, if_pos rfl] at hdepth
        rw [if_pos rfl]
        show stack.length + (_ + ended [event]) = 1 + (_ + begun [event])
        omega
    · rw [hendsPage, if_pos rfl] at hlength
      rw [Bool.not_true, Bool.and_false, if_neg Bool.false_ne_true]
      exact congrArg List.length hlength

/-- Every event keeps the record. -/
theorem Recorded.step (setting : Setting) (h : Recorded calls i) (event : Event) :
    Recorded (calls ++ [⟨event, (answer setting event i).1⟩]) (answer setting event i).2 := by
  rcases hpage : event.beginsPage with - | -
  · rw [answer_of_not_beginsPage hpage]
    rcases hstack : event.stackAfter? i.stack with - | stack
    · exact h.fail hpage hstack _
    · exact h.add hpage hstack _
  · obtain ⟨page, hop⟩ := Event.exists_page hpage
    rw [answer_of_beginPage hop]
    exact .begin calls hop

theorem recorded_history (setting : Setting) (events : List Event) :
    Recorded (history setting events {}) (afterEach setting events {}) := by
  -- by the last event: the record grows at its end
  induction events using List.reverseRecOn with
  | nil => exact .new
  | append_singleton events event ih =>
    rw [history_snoc, afterEach_snoc]
    exact ih.step setting event

/-- **An interpreter remembers what happened since the latest beginning of a
page**, and nothing else, wherever errors were returned on the way.  An error
names that page, and its event by the count of those before it on the page. -/
theorem recorded_afterEach (setting : Setting) (events : List Event) :
    let calls := history setting events {}
    let i := afterEach setting events {}
    Recorded calls i ∧ ∀ event error, (process setting event i).1.result = .error error →
      error = .underflow (latestPage calls) (currentPage calls).length := by
  intro calls i
  have hrecorded : Recorded calls i := recorded_history setting events
  refine ⟨hrecorded, ?_⟩
  intro event error herror
  rw [← hrecorded.page, ← hrecorded.nextIndex]
  exact (answer_error (Prod.ext herror rfl)).1

end Interpreter

end PageText
